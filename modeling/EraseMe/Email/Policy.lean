import EraseMe.Email.Parse
import EraseMe.Library.Result

/-!
# `email::policy`: one poll of a folder

`pollInboxWithDefaults` reads the stored mark, searches the UIDs above it, fetches the oldest of
them and stores the new mark.  `poll_eq_ok` says everything a successful poll with the in-memory
store does; the runs of polls are built on it.
-/

namespace EraseMe.Email

open Chrono

/-- How a poll stops: with an error, or with a panic of the date arithmetic. -/
inductive Abort
  | error (e : ImapError)
  | panic
  deriving DecidableEq, Repr

/-- How errors begin. -/
def errImap : String := "email: imap error"

/-- An error of a stage. -/
def stageError (stage cause : String) : Abort :=
  .error ⟨errImap ++ ": " ++ stage ++ ": " ++ cause⟩

/-- The spellings of a secret in raw and base64 form. -/
def spellings (secret : String) : List String :=
  let octets := Utf8.encode secret
  [secret, String.ofList (Base64.encode Base64.standard true octets),
    String.ofList (Base64.encode Base64.standard false octets),
    String.ofList (Base64.encode Base64.urlSafe true octets),
    String.ofList (Base64.encode Base64.urlSafe false octets)]

/-- Replace every spelling of every secret. -/
def redactError (message : String) (secrets : List String) : String :=
  secrets.foldl (fun message secret =>
    if secret = "" then message
    else (spellings secret).foldl (fun message s => Text.replace message s "[REDACTED]") message)
    message

/-- An error without secrets. -/
def imapError (secrets : List String) (stage cause : String) : Abort :=
  stageError stage (redactError cause secrets)

/-- The first UID to ask for: the one after the mark, when the mark is of this UIDVALIDITY. -/
def startUid (storedValidity lastUid : Option ℕ) (uidValidity : ℕ) : Except Abort ℕ :=
  match storedValidity, lastUid with
  | some validity, some last =>
      if validity = uidValidity then
        if last = u32Max then .error (stageError "UID range exhausted" "last UID is UINT32_MAX")
        else .ok (last + 1)
      else .ok 1
  | _, _ => .ok 1

/-- The start of the since window. -/
def sinceInstant (now : DateTime) (sinceDays : ℤ) : Except Abort (Option DateTime) :=
  if sinceDays > 0 then
    match now.checkedAddSigned (-durationDays sinceDays) with
    | some since => .ok (some since)
    | none => .error .panic
  else .ok none

/-- Parse one fetched message and keep it when it is in the since window. -/
def handleUid (fetched : List FetchedMessage) (since : Option DateTime)
    (acc : List Message × ℕ) (uid : ℕ) : Except Abort (List Message × ℕ) :=
  -- the map by UID keeps the last of several answers
  match fetched.reverse.find? fun message => message.uid = uid with
  | none => .error (stageError "UID fetch omitted requested message"
      ("UID " ++ toString uid ++ " missing from FETCH response"))
  | some message =>
      match parseFetchedMessage message with
      | .error cause => .error (stageError "parse fetched message failed"
          ("UID " ++ toString uid ++ ": " ++ cause))
      | .ok parsed =>
          let kept : Bool := match since with
            | none => true
            | some since => parsed.date.any fun date => since ≤ date.utc
          .ok (if kept then acc.1 ++ [parsed] else acc.1, uid)

/-- The folder, or the inbox. -/
def folderOf (config : ImapConfig) : String :=
  if config.folder = "" then "INBOX" else config.folder

/-- How many messages, or fifty. -/
def maxMessagesOf (config : ImapConfig) : ℕ :=
  if config.maxMessages ≤ 0 then 50 else config.maxMessages.toNat

/-- The oldest UIDs found, as many as fit the window. -/
def window (config : ImapConfig) (uids : List ℕ) : List ℕ :=
  (uids.insertionSort (· ≤ ·)).take (maxMessagesOf config)

/-- One UID-based poll of a folder; no list is returned when the search finds nothing. -/
def pollInboxWithDefaults {σ : Type} (store : HwmStore σ) (now : DateTime) (config : ImapConfig)
    (dialer : ImapDialer) (state : σ) : Except Abort (Option (List Message) × σ) := do
  let folder := folderOf config
  let secrets := config.secrets
  let session ← (dialer config).mapError (imapError secrets "connect/login failed")
  let uidValidity ← (session.select folder).mapError (imapError secrets "folder select failed")
  let mark ← (store.get state config.host folder).mapError
    (imapError secrets "read high-water mark failed")
  let start ← startUid mark.1 mark.2 uidValidity
  let since ← sinceInstant now config.sinceDays
  let uids ← (session.searchUid (toString start ++ ":*") since).mapError
    (imapError secrets "UID search failed")
  if uids = [] then
    let state ← (store.set state config.host folder uidValidity (mark.2.getD 0)).mapError
      (imapError secrets "write high-water mark failed")
    return (none, state)
  let uids := window config uids
  let fetched ← (session.fetch uids).mapError (imapError secrets "UID fetch failed")
  let (parsed, lastHandled) ← uids.foldlM (handleUid fetched since) ([], 0)
  let state ← (store.set state config.host folder uidValidity lastHandled).mapError
    (imapError secrets "write high-water mark failed")
  return (some parsed, state)

/-! ### What a successful poll does -/

theorem maxMessagesOf_pos (config : ImapConfig) : 0 < maxMessagesOf config := by
  unfold maxMessagesOf
  split_ifs with h
  · norm_num
  · omega

/-- Handling one UID appends at most the message of that UID. -/
theorem handleUid_eq_ok {fetched : List FetchedMessage} {since : Option DateTime}
    {acc acc' : List Message × ℕ} {uid : ℕ} (h : handleUid fetched since acc uid = .ok acc') :
    acc'.2 = uid ∧ ∃ message : Message, message.imapUid = uid ∧
      (acc'.1 = acc.1 ++ [message] ∨ since ≠ none ∧ acc'.1 = acc.1) := by
  unfold handleUid at h
  cases hf : fetched.reverse.find? fun message => message.uid = uid with
  | none => rw [hf] at h; cases h
  | some fetchedMessage =>
    rw [hf] at h
    cases hp : parseFetchedMessage fetchedMessage with
    | error e => simp only [hp] at h; cases h
    | ok parsed =>
      simp only [hp] at h
      have huid : parsed.imapUid = uid := by
        rw [parseFetchedMessage_imapUid hp]
        simpa using List.find?_some hf
      cases h
      refine ⟨rfl, parsed, huid, ?_⟩
      cases since with
      | none => exact Or.inl rfl
      | some since =>
        by_cases hk : (parsed.date.any fun date => since ≤ date.utc) = true
        · exact Or.inl (if_pos hk)
        · exact Or.inr ⟨by simp, if_neg hk⟩

/-- The loop over the fetched UIDs returns messages of these UIDs, in order, and all of them when
there is no since window. -/
theorem foldlM_handleUid_eq_ok {fetched : List FetchedMessage} {since : Option DateTime}
    {uids : List ℕ} {acc acc' : List Message × ℕ}
    (h : uids.foldlM (handleUid fetched since) acc = .ok acc') :
    acc'.2 = uids.getLastD acc.2 ∧ ∃ messages : List Message, acc'.1 = acc.1 ++ messages ∧
      (messages.map Message.imapUid).Sublist uids ∧
        (since = none → messages.map Message.imapUid = uids) := by
  induction uids generalizing acc with
  | nil =>
    cases h
    exact ⟨rfl, [], by simp, by simp, by simp⟩
  | cons uid uids ih =>
    obtain ⟨mid, hstep, hrest⟩ := Result.foldlM_cons_eq_ok.1 h
    obtain ⟨hlast, message, huid, hmid⟩ := handleUid_eq_ok hstep
    obtain ⟨hlast', messages, happ, hsub, hall⟩ := ih hrest
    refine ⟨by rw [hlast', hlast, List.getLastD_cons], ?_⟩
    rcases hmid with hmid | ⟨hsince, hmid⟩
    · refine ⟨message :: messages, by rw [happ, hmid]; simp, ?_, ?_⟩
      · rw [List.map_cons, huid]
        exact hsub.cons_cons uid
      · intro hs
        rw [List.map_cons, huid, hall hs]
    · exact ⟨messages, by rw [happ, hmid], hsub.cons uid, fun hs => absurd hs hsince⟩

/-- The mark of a folder in the in-memory store. -/
def markOf (records : HwmRecords) (config : ImapConfig) : Option (ℕ × ℕ) :=
  records (hwmKey config.host (folderOf config))

/-- The first UID asked for under a mark. -/
def firstUid (mark : Option (ℕ × ℕ)) (uidValidity : ℕ) : ℕ :=
  match mark with
  | some (validity, last) => if validity = uidValidity then last + 1 else 1
  | none => 1

/-- What a successful poll does to the mark and what it returns, by the answers of the session. -/
def Polled (config : ImapConfig) (session : ImapSession) (mark mark' : Option (ℕ × ℕ))
    (returned : List ℕ) : Prop :=
  ∃ uidValidity since uids, session.select (folderOf config) = .ok uidValidity ∧
    session.searchUid (toString (firstUid mark uidValidity) ++ ":*") since = .ok uids ∧
    (uids = [] ∧ returned = [] ∧ mark' = some (uidValidity, (mark.map Prod.snd).getD 0) ∨
      uids ≠ [] ∧ mark' = some (uidValidity, (window config uids).getLastD 0) ∧
        returned.Sublist (window config uids) ∧
        (config.sinceDays ≤ 0 → returned = window config uids))

/-- The UIDs of the messages a poll returned. -/
def returnedUids (result : Option (List Message)) : List ℕ :=
  (result.getD []).map Message.imapUid

theorem startUid_eq_ok {mark : Option (ℕ × ℕ)} {uidValidity start : ℕ}
    (h : startUid (mark.map Prod.fst) (mark.map Prod.snd) uidValidity = .ok start) :
    start = firstUid mark uidValidity := by
  cases mark with
  | none => cases h; rfl
  | some mark =>
    simp only [startUid, Option.map_some] at h
    simp only [firstUid]
    split_ifs at h ⊢ with h1 h2
    · exact (Except.ok.inj h).symm
    · exact (Except.ok.inj h).symm

theorem sinceInstant_eq_ok {now : DateTime} {days : ℤ} {since : Option DateTime}
    (h : sinceInstant now days = .ok since) (hdays : days ≤ 0) : since = none := by
  rw [sinceInstant, if_neg (by omega)] at h
  exact (Except.ok.inj h).symm

theorem memoryHwmStore_get (records : HwmRecords) (config : ImapConfig) :
    memoryHwmStore.get records config.host (folderOf config) =
      .ok ((markOf records config).map Prod.fst, (markOf records config).map Prod.snd) := by
  simp only [memoryHwmStore, markOf]
  cases records (hwmKey config.host (folderOf config)) with
  | none => rfl
  | some mark => rfl

/-- A successful poll with the in-memory store: the session it dialed, and what it did. -/
theorem poll_eq_ok {now : DateTime} {config : ImapConfig} {dialer : ImapDialer}
    {records records' : HwmRecords} {result : Option (List Message)}
    (h : pollInboxWithDefaults memoryHwmStore now config dialer records = .ok (result, records')) :
    ∃ session, dialer config = .ok session ∧
      Polled config session (markOf records config) (markOf records' config)
        (returnedUids result) := by
  unfold pollInboxWithDefaults at h
  obtain ⟨session, hdial, h₁⟩ := Result.bind_eq_ok.1 h
  obtain ⟨uidValidity, hselect, h₂⟩ := Result.bind_eq_ok.1 h₁
  obtain ⟨mark, hmark, h₃⟩ := Result.bind_eq_ok.1 h₂
  obtain ⟨start, hstart, h₄⟩ := Result.bind_eq_ok.1 h₃
  obtain ⟨since, hsince, h₅⟩ := Result.bind_eq_ok.1 h₄
  obtain ⟨uids, huids, h₆⟩ := Result.bind_eq_ok.1 h₅
  rw [Result.mapError_eq_ok] at hdial hselect hmark huids
  rw [memoryHwmStore_get] at hmark
  obtain rfl := Except.ok.inj hmark
  obtain rfl := startUid_eq_ok hstart
  refine ⟨session, hdial, uidValidity, since, uids, hselect, huids, ?_⟩
  by_cases hempty : uids = []
  · rw [if_pos hempty] at h₆
    cases h₆
    exact Or.inl ⟨hempty, rfl, by rw [markOf, Function.update_self]⟩
  · rw [if_neg hempty] at h₆
    obtain ⟨fetched, -, h₇⟩ := Result.bind_eq_ok.1 h₆
    obtain ⟨acc, hloop, h₈⟩ := Result.bind_eq_ok.1 h₇
    obtain ⟨hlast, messages, happ, hsub, hall⟩ := foldlM_handleUid_eq_ok hloop
    rw [List.nil_append] at happ
    cases h₈
    refine Or.inr ⟨hempty, ?_, ?_, ?_⟩
    · rw [markOf, Function.update_self, hlast]
    · rw [returnedUids, Option.getD_some, happ]
      exact hsub
    · intro hdays
      rw [returnedUids, Option.getD_some, happ]
      exact hall (sinceInstant_eq_ok hsince hdays)

end EraseMe.Email
