import EraseMe.Email.ImapSession
import EraseMe.Email.Smtp

/-!
# What the mail sessions depend on

On readers that no read can tell apart, every function of the two transports does the same: one
lemma for each function, in the order of the code.
-/

namespace EraseMe.Email

open Wire Wire.Talk

variable {R : Reader → Reader → Prop}

/-! ### SMTP -/

namespace Smtp

theorem respects_reply (hR : Readable R) : Respects R reply := by
  apply Respects.bind (Respects.pending hR)
  intro n
  apply Respects.loop
  intro p
  apply Respects.bind (Respects.receive fun _ _ h => hR.readLine _ h)
  rintro ⟨n, line⟩
  simp only
  split_ifs
  · exact Respects.fail
  · exact Respects.fail
  · split
    · exact Respects.fail
    · split_ifs
      · exact Respects.fail
      · exact Respects.pure
      · exact Respects.pure

theorem respects_expect (hR : Readable R) (expected : ℕ) : Respects R (expect expected) := by
  apply Respects.bind (respects_reply hR)
  rintro ⟨code, message⟩
  simp only
  split_ifs
  · exact Respects.pure
  · exact Respects.fail

theorem respects_command (hR : Readable R) (text : String) (expected : ℕ) :
    Respects R (command text expected) :=
  Respects.bind Respects.ofExcept fun _ => Respects.bind Respects.write fun _ =>
    Respects.bind Respects.write fun _ => respects_expect hR expected

theorem respects_hello (hR : Readable R) : Respects R hello := by
  apply Respects.bind (Respects.attempt (respects_command hR _ _))
  intro r
  cases r with
  | ok message => exact Respects.pure
  | error error => exact Respects.bind (respects_command hR _ _) fun _ => Respects.pure

theorem respects_authenticate (hR : Readable R) (mechanism : String) (payload : Bytes)
    (challengeError : String) : Respects R (authenticate mechanism payload challengeError) := by
  apply Respects.bind Respects.write
  intro _
  apply Respects.bind Respects.write
  intro _
  apply Respects.bind (respects_reply hR)
  rintro ⟨code, message⟩
  simp only
  split_ifs
  · exact Respects.pure
  all_goals exact Respects.bind (Respects.attempt (respects_command hR _ _)) fun _ =>
      Respects.bind (Respects.attempt (respects_command hR _ _)) fun _ => Respects.fail

theorem respects_presentCredentials (hR : Readable R) (cfg : SmtpConfig) :
    Respects R (presentCredentials cfg) := by
  unfold presentCredentials
  cases cfg.oauth2 with
  | some token =>
    simp only
    split_ifs
    · exact Respects.fail
    · exact respects_authenticate hR _ _ _
  | none =>
    simp only
    split_ifs
    · exact Respects.bind (Respects.attempt (respects_command hR _ _)) fun _ => Respects.fail
    · exact respects_authenticate hR _ _ _
    · exact Respects.pure

theorem respects_deliver (hR : Readable R) (sender : String) (extensions recipients : List String)
    (raw : Bytes) : Respects R (deliver sender extensions recipients raw) := by
  apply Respects.bind Respects.ofExcept
  intro _
  apply Respects.bind (respects_command hR _ _)
  intro _
  apply Respects.bind
  · apply Respects.forM
    intro recipient _
    exact Respects.bind Respects.ofExcept fun _ =>
      Respects.bind (respects_command hR _ _) fun _ => Respects.pure
  · intro _
    apply Respects.bind (respects_command hR _ _)
    intro _
    apply Respects.bind Respects.write
    intro _
    apply Respects.bind (respects_expect hR _)
    intro _
    exact Respects.bind (respects_command hR _ _) fun _ => Respects.pure

end Smtp

/-! ### IMAP -/

namespace Imap

theorem respects_readLine (hR : Readable R) : Respects R readLine := by
  apply Respects.receive
  intro r r' h
  obtain ⟨hresult, hreader⟩ := hR.readLine none h
  unfold lineOf
  generalize r.readLine none = x at hresult hreader
  generalize r'.readLine none = y at hresult hreader
  obtain ⟨line, d⟩ := x
  obtain ⟨line', d'⟩ := y
  simp only at hresult hreader
  subst hresult
  cases line with
  | error error => exact ⟨rfl, hreader⟩
  | ok line => exact ⟨rfl, hreader⟩

theorem respects_repeatedly (hR : Readable R) {α β : Type} {body : α → Talk Failure (α ⊕ β)}
    (h : ∀ a, Respects R (body a)) (a : α) : Respects R (repeatedly body a) :=
  Respects.bind (Respects.pending hR) fun _ => Respects.loop h _ _

theorem respects_round (hR : Readable R) {α β : Type}
    {answer : α → List Char → Talk Failure (α ⊕ β)} {a : α}
    (h : ∀ line, Respects R (answer a line)) : Respects R (round answer a) :=
  Respects.bind (respects_readLine hR) h

theorem respects_readGreeting (hR : Readable R) : Respects R readGreeting := by
  apply Respects.bind (respects_readLine hR)
  intro greeting
  split_ifs
  · exact Respects.pure
  · exact Respects.fail

theorem respects_capability (hR : Readable R) (tag : ℕ) : Respects R (capability tag) := by
  apply Respects.bind Respects.write
  intro _
  apply respects_repeatedly hR
  intro caps
  exact respects_round hR fun _ => Respects.pure

theorem respects_drain (hR : Readable R) (tag n : ℕ) : Respects R (drain tag n) := by
  induction n with
  | zero => exact Respects.pure
  | succ n ih =>
    apply Respects.bind (Respects.attempt (respects_readLine hR))
    intro r
    cases r with
    | error error => exact Respects.pure
    | ok line =>
      simp only
      split_ifs
      · exact Respects.pure
      · exact ih

theorem respects_logoutAfterFailure (hR : Readable R) (tag : ℕ) :
    Respects R (logoutAfterFailure tag) := by
  apply Respects.bind (Respects.attempt Respects.write)
  intro r
  cases r with
  | ok _ => exact respects_drain hR tag 4
  | error _ => exact Respects.pure

theorem respects_loginLine (hR : Readable R) (tag : ℕ) (line : List Char) :
    Respects R (loginLine tag () line) := by
  unfold loginLine
  split_ifs
  · exact Respects.bind (respects_logoutAfterFailure hR _) fun _ => Respects.fail
  · exact Respects.pure
  · exact Respects.fail
  · exact Respects.pure

theorem respects_xoauth2Line (tag : ℕ) (line : List Char) :
    Respects R (xoauth2Line tag () line) := by
  unfold xoauth2Line
  split_ifs
  · exact Respects.bind Respects.write fun _ => Respects.pure
  · exact Respects.fail
  · exact Respects.pure
  · exact Respects.fail
  · exact Respects.pure

theorem respects_select (hR : Readable R) (tag : ℕ) (folder : String) :
    Respects R (select tag folder) := by
  apply Respects.bind Respects.write
  intro _
  apply Respects.bind
  · apply respects_repeatedly hR
    intro uidValidity
    apply respects_round hR
    intro line
    unfold examineLine
    simp only
    split_ifs
    · split
      · exact Respects.fail
      · exact Respects.pure
    · exact Respects.pure
  · intro uidValidity
    cases uidValidity with
    | some uidValidity => exact Respects.pure
    | none => exact Respects.fail

theorem respects_searchLine (tag : ℕ) (uids : List ℕ) (line : List Char) :
    Respects R (searchLine tag uids line) := by
  unfold searchLine
  simp only
  split_ifs
  all_goals first
    | exact Respects.pure
    | split
      · exact Respects.fail
      · exact Respects.pure

theorem respects_searchUid (hR : Readable R) (tag : ℕ) (range : String) :
    Respects R (searchUid tag range) := by
  apply Respects.bind Respects.ofExcept
  intro _
  apply Respects.bind Respects.write
  intro _
  exact respects_repeatedly hR (fun uids => respects_round hR (respects_searchLine tag uids)) _

theorem respects_readOctets (hR : Readable R) : Respects R readOctets := by
  apply Respects.receive
  intro r r' h
  obtain ⟨hresult, hreader⟩ := hR.readUntil none h
  unfold octetsOf
  generalize r.readUntil none = x at hresult hreader
  generalize r'.readUntil none = y at hresult hreader
  obtain ⟨line, d⟩ := x
  obtain ⟨line', d'⟩ := y
  simp only at hresult hreader
  subst hresult
  cases line with
  | error error => exact ⟨rfl, hreader⟩
  | ok line => exact ⟨rfl, hreader⟩

theorem discard_alike (hR : Readable R) (fuel n : ℕ) {r r' : Reader} (h : R r r') :
    R (discard fuel n r) (discard fuel n r') := by
  induction fuel generalizing n r r' with
  | zero => exact h
  | succ fuel ih =>
    unfold discard
    split_ifs
    · exact h
    · obtain ⟨hresult, hreader⟩ := hR.readExact (min n 1024) h
      generalize r.readExact (min n 1024) = x at hresult hreader
      generalize r'.readExact (min n 1024) = y at hresult hreader
      obtain ⟨part, d⟩ := x
      obtain ⟨part', d'⟩ := y
      simp only at hresult hreader
      subst hresult
      cases part with
      | error error => exact hreader
      | ok part => exact ih _ hreader

theorem respects_boundedBody (hR : Readable R) (len : ℕ) :
    Respects R (receive (boundedBody len)) := by
  apply Respects.receive
  intro r r' h
  unfold boundedBody
  split_ifs
  · exact ⟨rfl, discard_alike hR len len h⟩
  · obtain ⟨hresult, hreader⟩ := hR.readExact len h
    generalize r.readExact len = x at hresult hreader
    generalize r'.readExact len = y at hresult hreader
    obtain ⟨body, d⟩ := x
    obtain ⟨body', d'⟩ := y
    simp only at hresult hreader
    subst hresult
    cases body with
    | error error => exact ⟨rfl, hreader⟩
    | ok body => exact ⟨rfl, hreader⟩

theorem respects_readResponseBytes (hR : Readable R) : Respects R readResponseBytes := by
  apply respects_repeatedly hR
  intro assembled
  apply Respects.bind (respects_readOctets hR)
  intro line
  split_ifs
  · exact Respects.fail
  · split
    · exact Respects.bind (respects_boundedBody hR _) fun _ => Respects.pure
    · exact Respects.pure

theorem respects_fetch (hR : Readable R) (tag : ℕ) (uids : List ℕ) :
    Respects R (fetch tag uids) := by
  unfold fetch
  split_ifs
  · exact Respects.pure
  · apply Respects.bind Respects.write
    intro _
    apply respects_repeatedly hR
    intro fetched
    apply Respects.bind (respects_readResponseBytes hR)
    intro response
    simp only
    split_ifs
    · exact Respects.bind Respects.ofExcept fun _ => Respects.pure
    · split
      · exact Respects.fail
      · exact Respects.pure
    · exact Respects.pure

theorem respects_close (hR : Readable R) (tag : ℕ) : Respects R (close tag) :=
  Respects.bind (Respects.attempt Respects.write) fun _ =>
    Respects.bind (Respects.attempt (respects_readOctets hR)) fun _ =>
      Respects.bind (Respects.attempt (respects_readOctets hR)) fun _ => Respects.pure

theorem respects_ask (hR : Readable R) (tag : ℕ) (request : Request) :
    Respects R (ask tag request) := by
  cases request with
  | select folder => exact Respects.bind (respects_select hR tag folder) fun _ => Respects.pure
  | searchUid range => exact Respects.bind (respects_searchUid hR tag range) fun _ => Respects.pure
  | fetch uids => exact Respects.bind (respects_fetch hR tag uids) fun _ => Respects.pure
  | close => exact Respects.bind (respects_close hR tag) fun _ => Respects.pure

/-- What a session answers depends on the bytes that are to come. -/
theorem respects_converse (hR : Readable R) (tag : ℕ) (requests : List Request) :
    Respects R (converse tag requests) := by
  induction requests generalizing tag with
  | nil => exact Respects.pure
  | cons request requests ih =>
    apply Respects.bind (Respects.attempt (respects_ask hR _ _))
    intro answer
    apply Respects.bind Respects.ofExcept
    intro answer
    exact Respects.bind (ih _) fun _ => Respects.pure

end Imap

end EraseMe.Email
