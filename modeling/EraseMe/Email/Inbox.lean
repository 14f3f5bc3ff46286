import EraseMe.Email.Policy
import EraseMe.Library.Run
import EraseMe.Library.Sorted

/-!
# The inbox: a mailbox and the polls of one folder

A run interleaves changes of the mailbox with successful polls of one host and folder that use the
in-memory mark.  Between polls the mailbox may gain and lose messages, new ones getting UIDs from
`uidNext` on, or be renumbered under a larger UIDVALIDITY.

* `Covered` is what the mark promises: every message present up to it was returned by a poll under
  the same UIDVALIDITY.  A poll of an empty mailbox that keeps the UID of another UIDVALIDITY
  (`KeepsForeignMark`) breaks it; every other poll preserves it.
* `Fresh` is what makes polls disjoint: everything returned under the UIDVALIDITY of the mark lies
  up to it.  A poll that finds nothing new (`RepeatsNewest`) returns the newest message again,
  because `n:*` denotes the interval between `n` and the newest UID in either order.
-/

namespace EraseMe.Email

open Chrono Run

/-! ### Mailboxes and their server -/

/-- A mailbox under one UIDVALIDITY. -/
structure Mailbox where
  uidValidity : ℕ
  uidNext : ℕ
  messages : List FetchedMessage
  uidNext_pos : 0 < uidNext
  uid_pos : ∀ m ∈ messages, 0 < m.uid
  uid_lt : ∀ m ∈ messages, m.uid < uidNext
  uid_le : ∀ m ∈ messages, m.uid ≤ u32Max

/-- The UIDs present. -/
def Mailbox.uids (m : Mailbox) : List ℕ := m.messages.map FetchedMessage.uid

theorem Mailbox.uids_lt {m : Mailbox} {u : ℕ} (h : u ∈ m.uids) : u < m.uidNext := by
  obtain ⟨msg, hmsg, rfl⟩ := List.mem_map.1 h
  exact m.uid_lt msg hmsg

theorem Mailbox.uids_pos {m : Mailbox} {u : ℕ} (h : u ∈ m.uids) : 0 < u := by
  obtain ⟨msg, hmsg, rfl⟩ := List.mem_map.1 h
  exact m.uid_pos msg hmsg

/-- The UIDs the range `start:*` denotes: those between `start` and the newest, in either order. -/
def Mailbox.InRange (m : Mailbox) (start u : ℕ) : Prop :=
  u ∈ m.uids ∧ ∃ newest ∈ m.uids, (∀ v ∈ m.uids, v ≤ newest) ∧
    min start newest ≤ u ∧ u ≤ max start newest

/-- The session answers SELECT and UID SEARCH for the mailbox. -/
structure Serves (m : Mailbox) (folder : String) (session : ImapSession) : Prop where
  select : ∀ v, session.select folder = .ok v → v = m.uidValidity
  search : ∀ (start : ℕ) since uids, session.searchUid (toString start ++ ":*") since = .ok uids →
    ∀ u, u ∈ uids ↔ m.InRange start u

/-! A server that always answers. -/

/-- The number before `:*`. -/
def rangeStart (range : String) : Option ℕ :=
  if range.toList.dropWhile (· != ':') = [':', '*'] then
    some (Nat.ofDigitChars 10 (range.toList.takeWhile (· != ':')) 0)
  else none

/-- The highest UID. -/
def Mailbox.newest (m : Mailbox) : ℕ := m.uids.foldr max 0

/-- A server that answers truly. -/
def Mailbox.session (m : Mailbox) : ImapSession where
  select _ := .ok m.uidValidity
  searchUid range _ := match rangeStart range with
    | some start => .ok (m.uids.filter fun u =>
        decide (min start m.newest ≤ u ∧ u ≤ max start m.newest))
    | none => .error "BAD invalid UID range"
  fetch uids := .ok (m.messages.filter fun message => decide (message.uid ∈ uids))

theorem rangeStart_toString (n : ℕ) : rangeStart (toString n ++ ":*") = some n := by
  have hdigit : ∀ c ∈ Nat.toDigits 10 n, (c != ':') = true := fun c hc => by
    have := Nat.isDigit_of_mem_toDigits (by norm_num) (by norm_num) hc
    rw [bne_iff_ne]
    rintro rfl
    exact absurd this (by decide)
  have htext : (toString n ++ ":*").toList = Nat.toDigits 10 n ++ [':', '*'] := by
    rw [String.toList_append, show toString n = n.repr from rfl, Nat.toList_repr]
    rfl
  rw [rangeStart, htext, List.dropWhile_append_of_pos hdigit, List.takeWhile_append_of_pos hdigit]
  simp [Nat.ofDigitChars_toDigits]

theorem foldr_max_mem {l : List ℕ} (h : l ≠ []) : l.foldr max 0 ∈ l := by
  induction l with
  | nil => exact absurd rfl h
  | cons a l ih =>
    rw [List.foldr_cons]
    by_cases hl : l = []
    · simp [hl]
    · rcases max_choice a (l.foldr max 0) with hmax | hmax
      · rw [hmax]
        exact List.mem_cons_self
      · rw [hmax]
        exact List.mem_cons_of_mem _ (ih hl)

theorem le_foldr_max {l : List ℕ} {a : ℕ} (h : a ∈ l) : a ≤ l.foldr max 0 := by
  induction l with
  | nil => cases h
  | cons b l ih =>
    rw [List.foldr_cons]
    rcases List.mem_cons.1 h with rfl | h
    · exact le_max_left _ _
    · exact (ih h).trans (le_max_right _ _)

theorem serves_session (m : Mailbox) (folder : String) : Serves m folder m.session := by
  refine ⟨fun v h => (Except.ok.inj h).symm, fun start since uids h u => ?_⟩
  simp only [Mailbox.session, rangeStart_toString] at h
  obtain rfl := Except.ok.inj h
  rw [List.mem_filter, decide_eq_true_eq]
  constructor
  · rintro ⟨hu, hlo, hhi⟩
    exact ⟨hu, m.newest, foldr_max_mem (List.ne_nil_of_mem hu), fun v hv => le_foldr_max hv, hlo,
      hhi⟩
  · rintro ⟨hu, newest, hmem, hmax, hlo, hhi⟩
    obtain rfl : newest = m.newest :=
      le_antisymm (le_foldr_max hmem) (hmax _ (foldr_max_mem (List.ne_nil_of_mem hu)))
    exact ⟨hu, hlo, hhi⟩

/-! Changes. -/

/-- What may happen to the mailbox between two polls. -/
inductive Mailbox.Changes (m m' : Mailbox) : Prop
  | gains (validity : m'.uidValidity = m.uidValidity) (next : m.uidNext ≤ m'.uidNext)
      (new : ∀ u ∈ m'.uids, u ∈ m.uids ∨ m.uidNext ≤ u)
  | renumbered (validity : m.uidValidity < m'.uidValidity)

theorem Mailbox.InRange.mem {m : Mailbox} {start u : ℕ} (h : m.InRange start u) : u ∈ m.uids := h.1

theorem Mailbox.exists_newest {m : Mailbox} {u : ℕ} (h : u ∈ m.uids) :
    ∃ newest ∈ m.uids, ∀ v ∈ m.uids, v ≤ newest := by
  obtain ⟨newest, hmem, hmax⟩ := m.uids.toFinset.exists_max_image id ⟨u, List.mem_toFinset.2 h⟩
  exact ⟨newest, List.mem_toFinset.1 hmem, fun v hv => hmax v (List.mem_toFinset.2 hv)⟩

/-- With something new in the mailbox the range is what lies from `start` on. -/
theorem Mailbox.inRange_iff_of_le {m : Mailbox} {start v : ℕ} (hv : v ∈ m.uids)
    (hstart : start ≤ v) {u : ℕ} : m.InRange start u ↔ u ∈ m.uids ∧ start ≤ u := by
  constructor
  · rintro ⟨hu, newest, hmem, hmax, hlo, hhi⟩
    have := hmax v hv
    exact ⟨hu, by omega⟩
  · rintro ⟨hu, hle⟩
    obtain ⟨newest, hmem, hmax⟩ := m.exists_newest hu
    have := hmax u hu
    exact ⟨hu, newest, hmem, hmax, by omega, by omega⟩

theorem Mailbox.lt_of_not_inRange {m : Mailbox} {start u : ℕ} (hu : u ∈ m.uids)
    (h : ¬ m.InRange start u) : u < start := by
  by_contra hlt
  exact h ((m.inRange_iff_of_le hu (by omega)).2 ⟨hu, by omega⟩)

/-- A UID below the first one asked for lies up to a mark of the same UIDVALIDITY. -/
theorem exists_mark_of_lt_firstUid {mark : Option (ℕ × ℕ)} {v u : ℕ} (hu : 0 < u)
    (h : u < firstUid mark v) : ∃ last, mark = some (v, last) ∧ u ≤ last := by
  cases mark with
  | none => simp only [firstUid] at h; omega
  | some mark =>
    obtain ⟨v', last⟩ := mark
    simp only [firstUid] at h
    split_ifs at h with hv
    · exact ⟨last, by rw [hv], by omega⟩
    · omega

/-! ### Runs -/

/-- One successful poll: the UIDVALIDITY it was made under and the UIDs it returned. -/
structure PollRecord where
  uidValidity : ℕ
  returned : List ℕ
  deriving DecidableEq, Repr

/-- The mailbox, the stored marks and the polls made so far. -/
structure Inbox where
  mailbox : Mailbox
  records : HwmRecords
  polls : List PollRecord

/-- The stored mark of the folder. -/
def Inbox.mark (host folder : String) (s : Inbox) : Option (ℕ × ℕ) :=
  s.records (hwmKey host folder)

/-- A successful poll of the folder. -/
structure Poll (host folder : String) (config : ImapConfig) (s t : Inbox) : Prop where
  host_eq : config.host = host
  folder_eq : folderOf config = folder
  mailbox_eq : t.mailbox = s.mailbox
  poll : ∃ now dialer session result, dialer config = .ok session ∧
    Serves s.mailbox folder session ∧
    pollInboxWithDefaults memoryHwmStore now config dialer s.records = .ok (result, t.records) ∧
    t.polls = s.polls ++ [⟨s.mailbox.uidValidity, returnedUids result⟩]

/-- One step of a run whose polls all meet `allowed`. -/
inductive Step (host folder : String) (allowed : ImapConfig → Inbox → Prop) : Inbox → Inbox → Prop
  | change {s : Inbox} {m : Mailbox} (h : s.mailbox.Changes m) :
      Step host folder allowed s { s with mailbox := m }
  | poll {s t : Inbox} {config : ImapConfig} (ha : allowed config s)
      (h : Poll host folder config s t) : Step host folder allowed s t

/-- One poll of the server that always answers; the inbox stays as it is when it fails. -/
def Inbox.poll (now : DateTime) (config : ImapConfig) (s : Inbox) : Inbox :=
  match pollInboxWithDefaults memoryHwmStore now config (fun _ => .ok s.mailbox.session)
      s.records with
  | .ok (result, records) =>
      { s with
        records := records
        polls := s.polls ++ [⟨s.mailbox.uidValidity, returnedUids result⟩] }
  | .error _ => s

theorem poll_of_answers (now : DateTime) (config : ImapConfig) (s : Inbox)
    (h : (pollInboxWithDefaults memoryHwmStore now config (fun _ => .ok s.mailbox.session)
      s.records).isOk = true) :
    Poll config.host (folderOf config) config s (s.poll now config) := by
  cases hp : pollInboxWithDefaults memoryHwmStore now config (fun _ => .ok s.mailbox.session)
      s.records with
  | error e => rw [hp] at h; cases h
  | ok r =>
    have heq : s.poll now config =
        { s with
          records := r.2
          polls := s.polls ++ [⟨s.mailbox.uidValidity, returnedUids r.1⟩] } := by
      rw [Inbox.poll, hp]
    rw [heq]
    exact ⟨rfl, rfl, rfl, now, fun _ => .ok s.mailbox.session, s.mailbox.session, r.1, rfl,
      serves_session _ _, hp, rfl⟩

/-- An inbox without marks. -/
def Inbox.start (m : Mailbox) : Inbox := ⟨m, fun _ => none, []⟩

/-- A mailbox with empty messages. -/
def Mailbox.ofUids (uidValidity : ℕ) (uids : List ℕ) (h : ∀ u ∈ uids, 0 < u ∧ u ≤ u32Max) :
    Mailbox where
  uidValidity := uidValidity
  uidNext := uids.foldr max 0 + 1
  messages := uids.map fun u => ⟨u, [], [], none, none⟩
  uidNext_pos := Nat.succ_pos _
  uid_pos m hm := by
    obtain ⟨u, hu, rfl⟩ := List.mem_map.1 hm
    exact (h u hu).1
  uid_lt m hm := by
    obtain ⟨u, hu, rfl⟩ := List.mem_map.1 hm
    exact Nat.lt_succ_of_le (le_foldr_max hu)
  uid_le m hm := by
    obtain ⟨u, hu, rfl⟩ := List.mem_map.1 hm
    exact (h u hu).2

section Poll

variable {host folder : String} {config : ImapConfig} {s t : Inbox}

theorem window_sorted (config : ImapConfig) (uids : List ℕ) :
    (window config uids).Pairwise (· ≤ ·) :=
  (List.pairwise_insertionSort (· ≤ ·) uids).sublist (List.take_sublist _ _)

theorem window_subset {config : ImapConfig} {uids : List ℕ} {u : ℕ}
    (h : u ∈ window config uids) : u ∈ uids :=
  (List.mem_insertionSort (· ≤ ·)).1 (List.mem_of_mem_take h)

theorem window_ne_nil {config : ImapConfig} {uids : List ℕ} (h : uids ≠ []) :
    window config uids ≠ [] := by
  intro hw
  rcases List.take_eq_nil_iff.1 hw with h0 | hnil
  · exact absurd h0 (maxMessagesOf_pos config).ne'
  · exact h (List.eq_nil_iff_length_eq_zero.2 (by
      rw [← List.length_insertionSort (· ≤ ·), hnil, List.length_nil]))

/-- What a poll does, by the mailbox: it finds nothing and keeps the stored UID, or it returns
messages of a window of the range and stores the last UID of the window. -/
theorem Poll.cases (h : Poll host folder config s t) :
    ∃ last returned, t.mark host folder = some (s.mailbox.uidValidity, last) ∧
      t.polls = s.polls ++ [⟨s.mailbox.uidValidity, returned⟩] ∧
      ((s.mailbox.uids = [] ∧ returned = [] ∧
          last = ((s.mark host folder).map Prod.snd).getD 0) ∨
        ∃ uids, (∀ u, u ∈ uids ↔
            s.mailbox.InRange (firstUid (s.mark host folder) s.mailbox.uidValidity) u) ∧
          window config uids ≠ [] ∧ last = (window config uids).getLastD 0 ∧
          returned.Sublist (window config uids) ∧
          (config.sinceDays ≤ 0 → returned = window config uids)) := by
  obtain ⟨rfl, rfl, -, now, dialer, session, result, hdial, hserves, hpoll, hlog⟩ := h
  obtain ⟨session', hdial', uidValidity, since, uids, hselect, hsearch, hcases⟩ := poll_eq_ok hpoll
  obtain rfl : session = session' := Except.ok.inj (hdial.symm.trans hdial')
  obtain rfl := hserves.select _ hselect
  have hrange := hserves.search _ _ _ hsearch
  rcases hcases with ⟨hnil, hret, hmark⟩ | ⟨hne, hmark, hsub, hall⟩
  · refine ⟨_, _, hmark, hlog, Or.inl ⟨?_, hret, rfl⟩⟩
    -- a message in the mailbox would put the newest one into every range
    by_contra hmail
    obtain ⟨u, hu⟩ := List.exists_mem_of_ne_nil _ hmail
    obtain ⟨newest, hmem, hmax⟩ := s.mailbox.exists_newest hu
    have := (hrange newest).2 ⟨hmem, newest, hmem, hmax, min_le_right _ _, le_max_right _ _⟩
    rw [hnil] at this
    cases this
  · exact ⟨_, _, hmark, hlog, Or.inr ⟨uids, hrange, window_ne_nil hne, rfl, hsub, hall⟩⟩

end Poll

/-! ### Nothing is lost -/

/-- The message was returned by a poll under the UIDVALIDITY. -/
def Returned (polls : List PollRecord) (uidValidity u : ℕ) : Prop :=
  ∃ p ∈ polls, p.uidValidity = uidValidity ∧ u ∈ p.returned

theorem Returned.append {polls : List PollRecord} {v u : ℕ} (h : Returned polls v u)
    (more : List PollRecord) : Returned (polls ++ more) v u := by
  obtain ⟨p, hp, hv, hu⟩ := h
  exact ⟨p, List.mem_append_left _ hp, hv, hu⟩

/-- Every message present up to the mark was returned under the UIDVALIDITY of the mark. -/
def UpToMark (host folder : String) (s : Inbox) : Prop :=
  ∃ last, s.mark host folder = some (s.mailbox.uidValidity, last) ∧
    ∀ u ∈ s.mailbox.uids, u ≤ last → Returned s.polls s.mailbox.uidValidity u

/-- The poll of an empty mailbox that stores the UID of a mark of another UIDVALIDITY under the
one of the mailbox. -/
def KeepsForeignMark (host folder : String) (s : Inbox) : Prop :=
  s.mailbox.uids = [] ∧ ∃ v last, s.mark host folder = some (v, last) ∧
    v ≠ s.mailbox.uidValidity ∧ last ≠ 0

/-- The invariant: the mark is not of a later UIDVALIDITY, and one of this UIDVALIDITY lies below
`uidNext` and covers the messages up to it. -/
structure Covered (host folder : String) (s : Inbox) : Prop where
  validity_le : ∀ v last, s.mark host folder = some (v, last) → v ≤ s.mailbox.uidValidity
  covers : ∀ last, s.mark host folder = some (s.mailbox.uidValidity, last) →
    last < s.mailbox.uidNext ∧
      ∀ u ∈ s.mailbox.uids, u ≤ last → Returned s.polls s.mailbox.uidValidity u

section Covered

variable {host folder : String} {config : ImapConfig} {s t : Inbox}

theorem covered_change {m : Mailbox} (h : s.mailbox.Changes m) (hs : Covered host folder s) :
    Covered host folder { s with mailbox := m } := by
  cases h with
  | gains validity next new =>
    refine ⟨fun v last hmark => ?_, fun last hmark => ?_⟩
    · have := hs.validity_le v last hmark
      change v ≤ m.uidValidity
      omega
    · rw [show ({ s with mailbox := m } : Inbox).mailbox = m from rfl, validity] at hmark ⊢
      obtain ⟨hlt, hcov⟩ := hs.covers last hmark
      refine ⟨by omega, fun u hu hle => ?_⟩
      rcases new u hu with hold | hnew
      · exact hcov u hold hle
      · omega
  | renumbered validity =>
    refine ⟨fun v last hmark => ?_, fun last hmark => ?_⟩
    · have := hs.validity_le v last hmark
      change v ≤ m.uidValidity
      omega
    · have : m.uidValidity ≤ s.mailbox.uidValidity := hs.validity_le _ last hmark
      omega

/-- A poll without a since window that does not keep a foreign mark covers everything up to the
mark it stores. -/
theorem covered_poll (h : Poll host folder config s t) (hdays : config.sinceDays = 0)
    (hkeep : ¬ KeepsForeignMark host folder s) (hs : Covered host folder s) :
    Covered host folder t ∧ UpToMark host folder t := by
  obtain ⟨last, returned, hmark, hlog, hcases⟩ := h.cases
  have hmail := h.mailbox_eq
  suffices hcov : last < s.mailbox.uidNext ∧
      ∀ u ∈ s.mailbox.uids, u ≤ last → Returned t.polls s.mailbox.uidValidity u by
    rw [← hmail] at hmark hcov
    refine ⟨⟨fun v l hv => ?_, fun l hl => ?_⟩, last, hmark, hcov.2⟩
    · rw [hmark] at hv
      cases hv
      exact le_refl _
    · rw [hmark] at hl
      cases hl
      exact hcov
  rcases hcases with ⟨hempty, -, hlast⟩ | ⟨uids, hrange, hne, hlast, -, hall⟩
  · refine ⟨?_, fun u hu => by rw [hempty] at hu; cases hu⟩
    cases hm : s.mark host folder with
    | none => rw [hm] at hlast; exact hlast ▸ s.mailbox.uidNext_pos
    | some mark =>
      obtain ⟨v, l⟩ := mark
      rw [hm] at hlast
      by_cases hv : v = s.mailbox.uidValidity
      · exact hlast ▸ (hs.covers l (hv ▸ hm)).1
      · by_cases hl : l = 0
        · exact hlast ▸ (by simpa [hl] using s.mailbox.uidNext_pos)
        · exact absurd ⟨hempty, v, l, hm, hv, hl⟩ hkeep
  · have hret := hall hdays.le
    have hlastmem : last ∈ window config uids := hlast ▸ Sorted.getLastD_mem hne 0
    refine ⟨s.mailbox.uids_lt ((hrange last).1 (window_subset hlastmem)).mem, fun u hu hle => ?_⟩
    -- a message found lies in the window, one not found was returned before
    by_cases hfound : u ∈ uids
    · have hwin : u ∈ window config uids :=
        Sorted.mem_take_of_le (List.pairwise_insertionSort _ _) 0
          ((List.mem_insertionSort _).2 hfound) (hlast ▸ hle) hne
      exact ⟨⟨_, returned⟩, by rw [hlog]; simp, rfl, hret ▸ hwin⟩
    · have hlt := s.mailbox.lt_of_not_inRange hu ((hrange u).not.1 hfound)
      obtain ⟨l, hl, hul⟩ := exists_mark_of_lt_firstUid (s.mailbox.uids_pos hu) hlt
      rw [hlog]
      exact ((hs.covers l hl).2 u hu hul).append _

end Covered

/-- The polls that do not lose messages: without a since window, and not keeping the UID of a
foreign mark over an empty mailbox. -/
def Careful (host folder : String) (config : ImapConfig) (s : Inbox) : Prop :=
  config.sinceDays = 0 ∧ ¬ KeepsForeignMark host folder s

theorem covered_of_reaches {host folder : String} {s t : Inbox}
    (hrun : Reaches (Step host folder (Careful host folder)) s t) (hs : Covered host folder s) :
    Covered host folder t := by
  refine Run.invariant (fun a b hstep ha => ?_) hrun hs
  cases hstep with
  | change h => exact covered_change h ha
  | poll hallowed h => exact (covered_poll h hallowed.1 hallowed.2 ha).1

/-- In every run of careful polls that starts without a mark, after every poll each message
present up to the mark has been returned by a poll under the same UIDVALIDITY. -/
theorem upToMark_after_careful_polls {host folder : String} {config : ImapConfig} {s t t' : Inbox}
    (hinit : s.mark host folder = none)
    (hrun : Reaches (Step host folder (Careful host folder)) s t)
    (hcareful : Careful host folder config t) (hpoll : Poll host folder config t t') :
    UpToMark host folder t' := by
  have hs : Covered host folder s := by
    refine ⟨fun v last h => ?_, fun last h => ?_⟩
    · rw [hinit] at h
      cases h
    · rw [hinit] at h
      cases h
  exact (covered_poll hpoll hcareful.1 hcareful.2 (covered_of_reaches hrun hs)).2

/-- The settings of the runs below. -/
def settings : ImapConfig := { host := "imap.example.org" }

/-- A mailbox with one message, after a poll. -/
def polledInbox : Inbox := (Inbox.start (.ofUids 1 [100] (by decide))).poll epoch settings

/-- The same inbox, renumbered with two messages. -/
def renumberedInbox : Inbox := { polledInbox with mailbox := .ofUids 2 [1, 2] (by decide) }

/-- The same inbox, renumbered while it is empty. -/
def emptiedInbox : Inbox := { polledInbox with mailbox := .ofUids 2 [] (by decide) }

/-- The emptied inbox, polled, after three messages arrived. -/
def refilledInbox : Inbox :=
  { emptiedInbox.poll epoch settings with mailbox := .ofUids 2 [1, 2, 3] (by decide) }

theorem poll_polledInbox :
    Poll "imap.example.org" "INBOX" settings (.start (.ofUids 1 [100] (by decide))) polledInbox :=
  poll_of_answers epoch settings _ (by decide)

theorem upToMark_renumberedInbox :
    UpToMark "imap.example.org" "INBOX" (renumberedInbox.poll epoch settings) := by
  have hcareful : ∀ s : Inbox, s.mailbox.uids ≠ [] →
      Careful "imap.example.org" "INBOX" settings s := fun s hs => ⟨rfl, fun h => hs h.1⟩
  have hrun : Reaches (Step "imap.example.org" "INBOX" (Careful "imap.example.org" "INBOX"))
      (.start (.ofUids 1 [100] (by decide))) renumberedInbox := by
    refine .tail (.single (.poll (hcareful _ (by decide)) poll_polledInbox)) ?_
    exact .change (s := polledInbox) (.renumbered (by decide))
  exact upToMark_after_careful_polls rfl hrun (hcareful renumberedInbox (by decide))
    (poll_of_answers epoch settings renumberedInbox (by decide))

/-- Polls without a since window lose messages: the mark of the emptied mailbox hides the first
two messages that arrive. -/
theorem upToMark_fails_after_empty_poll :
    ¬ ∀ (host folder : String) (config : ImapConfig) (s t t' : Inbox),
      s.mark host folder = none →
      Reaches (Step host folder fun config _ => config.sinceDays = 0) s t →
      config.sinceDays = 0 → Poll host folder config t t' → UpToMark host folder t' := by
  intro h
  have hempty : Reaches (Step "imap.example.org" "INBOX" fun config _ => config.sinceDays = 0)
      (.start (.ofUids 1 [100] (by decide))) emptiedInbox := by
    refine .tail (.single (.poll rfl poll_polledInbox)) ?_
    exact .change (s := polledInbox) (.renumbered (by decide))
  have hrun : Reaches (Step "imap.example.org" "INBOX" fun config _ => config.sinceDays = 0)
      (.start (.ofUids 1 [100] (by decide))) refilledInbox := by
    refine .tail (.tail hempty (.poll rfl (poll_of_answers epoch settings _ (by decide)))) ?_
    exact .change (s := emptiedInbox.poll epoch settings)
      (.gains (by decide) (by decide) (by decide))
  obtain ⟨last, hmark, hup⟩ := h "imap.example.org" "INBOX" settings _ _ _ rfl hrun rfl
    (poll_of_answers epoch settings refilledInbox (by decide))
  have hthree : (refilledInbox.poll epoch settings).mark "imap.example.org" "INBOX" =
      some (2, 3) := by decide
  have hlog : (refilledInbox.poll epoch settings).polls =
      [⟨1, [100]⟩, ⟨2, []⟩, ⟨2, [3]⟩] := by decide
  rw [hthree] at hmark
  cases hmark
  obtain ⟨p, hp, hv, hu⟩ := hup 1 (by decide) (by decide)
  rw [hlog] at hp
  simp only [List.mem_cons, List.not_mem_nil, or_false] at hp
  rcases hp with rfl | rfl | rfl
  · exact absurd hu (by decide)
  · exact absurd hu (by decide)
  · exact absurd hu (by decide)

/-! ### Nothing is returned twice -/

/-- No UID is returned by two polls under one UIDVALIDITY. -/
def NoRepeats (polls : List PollRecord) : Prop :=
  polls.Pairwise fun p q => p.uidValidity = q.uidValidity → ∀ u ∈ p.returned, u ∉ q.returned

/-- The poll of a mailbox whose messages all lie up to a mark of its UIDVALIDITY. -/
def RepeatsNewest (host folder : String) (s : Inbox) : Prop :=
  s.mailbox.uids ≠ [] ∧ ∃ last, s.mark host folder = some (s.mailbox.uidValidity, last) ∧
    ∀ u ∈ s.mailbox.uids, u ≤ last

/-- The invariant: once a poll was made, the mark is not of a later UIDVALIDITY, no poll is of a
later one than the mark, and what polls of its UIDVALIDITY returned lies up to it. -/
structure Fresh (host folder : String) (s : Inbox) : Prop where
  noRepeats : NoRepeats s.polls
  bounded : s.polls ≠ [] → ∃ v last, s.mark host folder = some (v, last) ∧
    v ≤ s.mailbox.uidValidity ∧ ∀ p ∈ s.polls, p.uidValidity ≤ v ∧
      (p.uidValidity = v → ∀ u ∈ p.returned, u ≤ last)

section Fresh

variable {host folder : String} {config : ImapConfig} {s t : Inbox}

theorem fresh_change {m : Mailbox} (h : s.mailbox.Changes m) (hs : Fresh host folder s) :
    Fresh host folder { s with mailbox := m } := by
  refine ⟨hs.noRepeats, fun hne => ?_⟩
  obtain ⟨v, last, hmark, hv, hp⟩ := hs.bounded hne
  refine ⟨v, last, hmark, ?_, hp⟩
  change v ≤ m.uidValidity
  cases h with
  | gains validity _ _ => omega
  | renumbered validity => omega

/-- Unless it repeats the newest message, a poll returns UIDs above a mark of its UIDVALIDITY and
up to the mark it stores. -/
theorem Poll.returned_bounds (h : Poll host folder config s t)
    (hrep : ¬ RepeatsNewest host folder s) :
    ∃ last returned, t.mark host folder = some (s.mailbox.uidValidity, last) ∧
      t.polls = s.polls ++ [⟨s.mailbox.uidValidity, returned⟩] ∧ (∀ u ∈ returned, u ≤ last) ∧
      ∀ old, s.mark host folder = some (s.mailbox.uidValidity, old) →
        old ≤ last ∧ ∀ u ∈ returned, old < u := by
  obtain ⟨last, returned, hmark, hlog, hcases⟩ := h.cases
  refine ⟨last, returned, hmark, hlog, ?_⟩
  rcases hcases with ⟨-, rfl, hlast⟩ | ⟨uids, hrange, hne, hlast, hsub, -⟩
  · refine ⟨by simp, fun old hold => ⟨?_, by simp⟩⟩
    rw [hlast, hold]
    exact le_refl _
  · refine ⟨fun u hu => hlast ▸ Sorted.le_getLastD (window_sorted _ _) 0 (hsub.subset hu),
      fun old hold => ?_⟩
    rw [hold] at hrange
    simp only [firstUid, if_true] at hrange
    have hlastmem : last ∈ window config uids := hlast ▸ Sorted.getLastD_mem hne 0
    have hmem := ((hrange last).1 (window_subset hlastmem)).mem
    -- some message lies above the mark, so that the range starts after the mark
    obtain ⟨new, hnew, hlt⟩ : ∃ new ∈ s.mailbox.uids, old < new := by
      by_contra hnone
      push Not at hnone
      exact hrep ⟨List.ne_nil_of_mem hmem, old, hold, hnone⟩
    have habove : ∀ u ∈ window config uids, old < u := fun u hu =>
      ((s.mailbox.inRange_iff_of_le hnew hlt).1 ((hrange u).1 (window_subset hu))).2
    exact ⟨(habove last hlastmem).le, fun u hu => habove u (hsub.subset hu)⟩

theorem fresh_poll (h : Poll host folder config s t) (hrep : ¬ RepeatsNewest host folder s)
    (hs : Fresh host folder s) : Fresh host folder t := by
  obtain ⟨last, returned, hmark, hlog, hle, hold⟩ := h.returned_bounds hrep
  have hearlier : ∀ p ∈ s.polls, p.uidValidity ≤ s.mailbox.uidValidity ∧
      (p.uidValidity = s.mailbox.uidValidity → ∀ u ∈ p.returned, u ≤ last ∧ u ∉ returned) := by
    intro p hp
    obtain ⟨v, old, hm, hv, hall⟩ := hs.bounded (List.ne_nil_of_mem hp)
    refine ⟨(hall p hp).1.trans hv, fun hpv u hu => ?_⟩
    obtain rfl : v = s.mailbox.uidValidity := by
      have := (hall p hp).1
      omega
    obtain ⟨hlast, habove⟩ := hold old hm
    have := (hall p hp).2 hpv u hu
    exact ⟨by omega, fun hmem => by have := habove u hmem; omega⟩
  refine ⟨?_, fun _ => ⟨s.mailbox.uidValidity, last, hmark, h.mailbox_eq ▸ le_refl _, ?_⟩⟩
  · rw [NoRepeats, hlog, List.pairwise_append]
    refine ⟨hs.noRepeats, List.pairwise_singleton _ _, fun p hp q hq hpq u hu => ?_⟩
    obtain rfl := List.mem_singleton.1 hq
    exact ((hearlier p hp).2 hpq u hu).2
  · intro p hp
    rw [hlog, List.mem_append, List.mem_singleton] at hp
    rcases hp with hp | rfl
    · exact ⟨(hearlier p hp).1, fun hpv u hu => ((hearlier p hp).2 hpv u hu).1⟩
    · exact ⟨le_refl _, fun _ => hle⟩

end Fresh

/-- In every run in which every poll finds an empty mailbox, a message above the mark or no mark
of the UIDVALIDITY, no UID is returned by two polls under one UIDVALIDITY. -/
theorem noRepeats_of_polls_with_news {host folder : String} {s t : Inbox} (hinit : s.polls = [])
    (hrun : Reaches (Step host folder fun _ a => ¬ RepeatsNewest host folder a) s t) :
    NoRepeats t.polls := by
  have hs : Fresh host folder s := ⟨by rw [hinit]; exact List.Pairwise.nil, fun h => absurd hinit h⟩
  refine (Run.invariant (fun a b hstep ha => ?_) hrun hs).noRepeats
  cases hstep with
  | change h => exact fresh_change h ha
  | poll hallowed h => exact fresh_poll h hallowed ha

theorem noRepeats_renumberedInbox : NoRepeats (renumberedInbox.poll epoch settings).polls := by
  have hnews : ∀ s : Inbox, (∃ u ∈ s.mailbox.uids, ∀ last,
      s.mark "imap.example.org" "INBOX" = some (s.mailbox.uidValidity, last) → last < u) →
      ¬ RepeatsNewest "imap.example.org" "INBOX" s := by
    rintro s ⟨u, hu, hlt⟩ ⟨-, last, hmark, hle⟩
    exact absurd (hle u hu) (not_le.2 (hlt last hmark))
  have hfirst : ¬ RepeatsNewest "imap.example.org" "INBOX" (.start (.ofUids 1 [100] (by decide))) :=
    hnews _ ⟨100, by decide, fun last h => by cases h⟩
  have hsecond : ¬ RepeatsNewest "imap.example.org" "INBOX" renumberedInbox := by
    refine hnews _ ⟨1, by decide, fun last h => ?_⟩
    rw [show renumberedInbox.mark "imap.example.org" "INBOX" = some (1, 100) by decide] at h
    cases h
  refine noRepeats_of_polls_with_news (s := .start (.ofUids 1 [100] (by decide))) rfl
    (.tail (.tail (.single (.poll hfirst poll_polledInbox)) ?_)
      (.poll hsecond (poll_of_answers epoch settings renumberedInbox (by decide))))
  exact .change (s := polledInbox) (.renumbered (by decide))

/-- A second poll of an unchanged mailbox returns its newest message again. -/
theorem noRepeats_fails_without_news :
    ¬ ∀ (host folder : String) (s t : Inbox), s.polls = [] →
      Reaches (fun a b => Step host folder (fun _ _ => True) a b ∧
        b.mailbox.uidValidity = a.mailbox.uidValidity) s t → NoRepeats t.polls := by
  intro h
  have hrepeat := h "imap.example.org" "INBOX" (.start (.ofUids 1 [100] (by decide)))
    (polledInbox.poll epoch settings) rfl
    (.tail (.single ⟨.poll trivial poll_polledInbox, by decide⟩)
      ⟨.poll trivial (poll_of_answers epoch settings polledInbox (by decide)), by decide⟩)
  have hlog : (polledInbox.poll epoch settings).polls = [⟨1, [100]⟩, ⟨1, [100]⟩] := by decide
  rw [NoRepeats, hlog] at hrepeat
  exact absurd hrepeat (by decide)

end EraseMe.Email
