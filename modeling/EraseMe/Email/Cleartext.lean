import EraseMe.Email.ImapSession
import EraseMe.Email.Smtp

/-!
# What the mail transports write before TLS

Every function of the two transports has a lemma that says what it writes.  The lines before TLS are
listed by `Smtp.Plain` and `Imap.Plain`; no password and no token goes into any of them.

* IMAP dials under TLS, or stops before the credentials, unless cleartext is allowed.
* SMTP keeps a password from a foreign host without TLS, but not an OAuth2 token:
  `cleartext_guarded_iff` says exactly for which configurations nothing is disclosed.
-/

namespace EraseMe.Email

open Wire Wire.Talk

/-! ### SMTP -/

namespace Smtp

/-- The lines that hold no credentials. -/
inductive Plain (sender : String) (recipients : List String) (raw : Bytes) : Bytes → Prop
  | crlf : Plain sender recipients raw crlf
  | command {text : String}
      (h : text ∈ ["EHLO localhost", "HELO localhost", "STARTTLS", "DATA", "QUIT", "*"]) :
      Plain sender recipients raw (Utf8.encode text)
  | mail (eightBit utf8 : Bool) :
      Plain sender recipients raw (Utf8.encode (mailLine sender eightBit utf8))
  | rcpt {recipient : String} (h : recipient ∈ recipients) :
      Plain sender recipients raw (Utf8.encode (rcptLine recipient))
  | data : Plain sender recipients raw (dotEncode raw)

section Says

variable {B : Bytes → Prop}

theorem says_replyLine (p : Partial) : Says B (replyLine p) := by
  unfold replyLine
  apply Says.bind Says.receive
  rintro ⟨n, line⟩
  simp only
  split_ifs
  · exact Says.fail
  · exact Says.fail
  · split
    · exact Says.fail
    · split_ifs
      · exact Says.fail
      · exact Says.pure
      · exact Says.pure

theorem says_reply : Says B reply :=
  Says.bind Says.pending fun _ => Says.loop says_replyLine _ _

theorem says_expect (expected : ℕ) : Says B (expect expected) := by
  unfold expect
  apply Says.bind says_reply
  rintro ⟨code, message⟩
  simp only
  split_ifs
  · exact Says.pure
  · exact Says.fail

theorem says_command (hcrlf : B crlf) {text : String} (h : B (Utf8.encode text)) (expected : ℕ) :
    Says B (command text expected) :=
  Says.bind Says.ofExcept fun _ => Says.bind (Says.write h) fun _ =>
    Says.bind (Says.write hcrlf) fun _ => says_expect expected

theorem says_hello (hcrlf : B crlf) (hehlo : B (Utf8.encode "EHLO localhost"))
    (hhelo : B (Utf8.encode "HELO localhost")) : Says B hello := by
  unfold hello
  apply Says.bind (Says.attempt (says_command hcrlf hehlo _))
  intro r
  cases r with
  | ok message => exact Says.pure
  | error error => exact Says.bind (says_command hcrlf hhelo _) fun _ => Says.pure

theorem says_authenticate (hcrlf : B crlf) {mechanism : String} {payload : Bytes}
    (hline : B (Utf8.encode (authLine mechanism payload))) (hstar : B (Utf8.encode "*"))
    (hquit : B (Utf8.encode "QUIT")) (challengeError : String) :
    Says B (authenticate mechanism payload challengeError) := by
  unfold authenticate
  apply Says.bind (Says.write hline)
  intro _
  apply Says.bind (Says.write hcrlf)
  intro _
  apply Says.bind says_reply
  rintro ⟨code, message⟩
  simp only
  split_ifs
  · exact Says.pure
  all_goals exact Says.bind (Says.attempt (says_command hcrlf hstar _)) fun _ =>
      Says.bind (Says.attempt (says_command hcrlf hquit _)) fun _ => Says.fail

theorem says_presentCredentials_true (cfg : SmtpConfig) :
    Says (fun _ => True) (presentCredentials cfg) := by
  unfold presentCredentials
  cases cfg.oauth2 with
  | some token =>
    simp only
    split_ifs
    · exact Says.fail
    · exact says_authenticate trivial trivial trivial trivial _
  | none =>
    simp only
    split_ifs
    · exact Says.bind (Says.attempt (says_command trivial trivial _)) fun _ => Says.fail
    · exact says_authenticate trivial trivial trivial trivial _
    · exact Says.pure

end Says

section Plain

variable {sender : String} {recipients : List String} {raw : Bytes}

theorem says_plainCommand {text : String}
    (h : text ∈ ["EHLO localhost", "HELO localhost", "STARTTLS", "DATA", "QUIT", "*"])
    (expected : ℕ) : Says (Plain sender recipients raw) (command text expected) :=
  says_command .crlf (.command h) expected

theorem says_plainHello : Says (Plain sender recipients raw) hello :=
  says_hello .crlf (.command (by simp)) (.command (by simp))

theorem says_deliver (extensions : List String) :
    Says (Plain sender recipients raw) (deliver sender extensions recipients raw) := by
  unfold deliver
  apply Says.bind Says.ofExcept
  intro _
  apply Says.bind (says_command .crlf (.mail _ _) _)
  intro _
  apply Says.bind
  · apply Says.forM
    intro recipient h
    apply Says.bind Says.ofExcept
    intro _
    exact Says.bind (says_command .crlf (.rcpt h) _) fun _ => Says.pure
  · intro _
    apply Says.bind (says_plainCommand (by simp) _)
    intro _
    apply Says.bind (Says.write .data)
    intro _
    apply Says.bind (says_expect _)
    intro _
    exact Says.bind (says_plainCommand (by simp) _) fun _ => Says.pure

/-- What goes before the credentials holds none. -/
theorem guards_openSession (net : Network) (cfg : SmtpConfig) :
    Guards (Plain sender recipients raw) (openSession net cfg) := by
  unfold openSession
  apply Guards.bind (Guards.of_saying Says.ofExcept)
  intro _
  apply Guards.bind (Guards.of_saying (says_expect _))
  intro _
  apply Guards.bind (Guards.of_saying says_plainHello)
  intro extensions
  split_ifs
  · unfold startTls
    split_ifs
    · have hcommand : Says (Plain sender recipients raw) (command "STARTTLS" 220) :=
        says_plainCommand (by simp) _
      apply Guards.bind (Guards.of_saying hcommand)
      intro _
      apply Guards.bind (Guards.of_saying Says.ahead)
      intro buffer
      split_ifs
      · exact Guards.of_saying Says.fail
      · apply Guards.bind (Guards.of_saying Says.ofExcept)
        intro _
        exact Guards.bind Guards.protect fun _ => Guards.of_saying says_plainHello
    · exact Guards.of_saying Says.fail
  · exact Guards.of_saying Says.pure

/-- With TLS the session is not open before the upgrade. -/
theorem secures_openSession (net : Network) {cfg : SmtpConfig} (h : cfg.useTls = true) :
    Secures (openSession net cfg) := by
  unfold openSession
  rw [h]
  apply Secures.bind
  intro _
  apply Secures.bind
  intro _
  apply Secures.bind
  intro extensions
  show Secures (startTls net extensions)
  unfold startTls
  split_ifs
  · apply Secures.bind
    intro _
    apply Secures.bind
    intro buffer
    split_ifs
    · exact Secures.fail
    · apply Secures.bind
      intro _
      exact Secures.bind_left Secures.protect fun _ =>
        Guards.of_saying (B := fun _ => True) (says_hello trivial trivial trivial)
  · exact Secures.fail

end Plain

/-- The configuration has a token to present. -/
def hasToken (cfg : SmtpConfig) : Bool :=
  cfg.oauth2.any fun token => token.username ≠ "" ∧ token.accessToken ≠ ""

/-- Without TLS a foreign host gets no credentials, if there is no token. -/
theorem says_presentCredentials {cfg : SmtpConfig} (htls : cfg.useTls = false)
    (hhost : isLocalhost cfg.host = false) (htoken : hasToken cfg = false)
    {sender : String} {recipients : List String} {raw : Bytes} :
    Says (Plain sender recipients raw) (presentCredentials cfg) := by
  unfold presentCredentials
  cases htok : cfg.oauth2 with
  | some token =>
    simp only
    split_ifs with hempty
    · exact Says.fail
    · simp only [hasToken, htok, Option.any_some, decide_eq_false_iff_not] at htoken
      exact absurd (not_or.1 hempty) htoken
  | none =>
    simp only [htls, hhost, and_self, if_true]
    split_ifs
    · exact Says.bind (Says.attempt (says_plainCommand (by simp) _)) fun _ => Says.fail
    · exact Says.pure

theorem validate_eq_ok {cfg : SmtpConfig} {recipients : Option (List String)} {list : List String}
    (h : validate cfg recipients = .ok list) : recipients = some list := by
  unfold validate at h
  cases recipients with
  | none => cases h
  | some items =>
    simp only [Option.filter] at h
    split_ifs at h
    all_goals simp_all

theorem guards_sendInner {cfg : SmtpConfig}
    (h : cfg.useTls = true ∨ isLocalhost cfg.host = false ∧ hasToken cfg = false) (net : Network)
    (recipients : Option (List String)) (raw : Bytes) :
    Guards (Plain cfg.sender (recipients.getD []) raw) (sendInner net cfg recipients raw) := by
  unfold sendInner
  apply Guards.ofExcept_bind
  intro list hvalid
  rw [validate_eq_ok hvalid]
  cases htls : cfg.useTls with
  | true =>
    apply Guards.bind_secured (guards_openSession net cfg) (secures_openSession net htls)
    intro extensions
    apply Says.bind (says_presentCredentials_true cfg)
    intro _
    exact (says_deliver extensions).mono fun _ _ => trivial
  | false =>
    rcases h with h | ⟨hhost, htoken⟩
    · rw [htls] at h
      cases h
    · apply Guards.bind (guards_openSession net cfg)
      intro extensions
      apply Guards.of_saying
      exact Says.bind (says_presentCredentials htls hhost htoken) fun _ => says_deliver extensions

theorem send_log (net : Network) (cfg : SmtpConfig) (recipients : Option (List String))
    (raw : Bytes) (c : Conn) :
    (send net cfg recipients raw c).2 = (sendInner net cfg recipients raw c).2 := by
  unfold send
  rcases sendInner net cfg recipients raw c with ⟨⟨_ | _, c'⟩, log⟩
  · rfl
  · rfl

/-- Without an address nothing is written at all. -/
theorem sendInner_log_of_invalid {cfg : SmtpConfig} {recipients : Option (List String)}
    {error : String} (h : validate cfg recipients = .error error) (net : Network) (raw : Bytes)
    (c : Conn) : (sendInner net cfg recipients raw c).2 = [] := by
  unfold sendInner
  rw [h]
  rfl

theorem validate_eq_error {cfg : SmtpConfig} (h : cfg.host = "" ∨ cfg.port ≤ 0 ∨ cfg.port > 65535)
    (recipients : Option (List String)) : ∃ error, validate cfg recipients = .error error := by
  cases hvalid : validate cfg recipients with
  | error error => exact ⟨error, rfl⟩
  | ok list =>
    unfold validate at hvalid
    split at hvalid
    · cases hvalid
    · split_ifs at hvalid
      rcases h with h | h | h
      · contradiction
      · contradiction
      · contradiction

/-! A server that takes the greeting in the old way sees the token. -/

/-- Resolving, connecting and setting up all go well. -/
def goodNetwork : Network := ⟨.ok (), .ok ()⟩

/-- A server without extensions. -/
def greetingServer : Conn :=
  ⟨⟨[], [Utf8.encode "220 x\r\n250 x\r\n"], none⟩, none, none, false⟩

theorem openSession_greetingServer {cfg : SmtpConfig} (h : cfg.useTls = false) :
    (openSession goodNetwork cfg greetingServer).1 =
      (.ok [], { greetingServer with reader := ⟨[], [], none⟩ }) := by
  unfold openSession
  rw [h]
  decide

/-- The token goes out on the stream as it is. -/
theorem sends_authLine {cfg : SmtpConfig} {token : OAuth2Token} (htls : cfg.useTls = false)
    (htoken : cfg.oauth2 = some token) (hset : token.username ≠ "" ∧ token.accessToken ≠ "")
    (hhost : cfg.host ≠ "") (hport : 0 < cfg.port ∧ cfg.port ≤ 65535) :
    (false, Utf8.encode (authLine "XOAUTH2"
      (Utf8.encode (xoauth2Payload token.username token.accessToken)))) ∈
        (sendInner goodNetwork cfg (some [""]) [] greetingServer).2 := by
  have hvalid : validate cfg (some [""]) = .ok [""] := by
    simp only [validate, Option.filter]
    rw [if_pos (by simp)]
    simp only
    rw [if_neg hhost, if_neg (by omega), if_neg (by omega)]
  unfold sendInner
  rw [hvalid]
  have hgreeting : (Talk.ofExcept (.ok [""]) greetingServer :
      (Except String (List String) × Conn) × List Entry).1 = (.ok [""], greetingServer) := rfl
  apply mem_bind_right hgreeting
  apply mem_bind_right (openSession_greetingServer htls)
  apply mem_bind_left
  unfold presentCredentials
  simp only [htoken, hset.1, hset.2, or_self, if_false]
  unfold authenticate
  exact mem_bind_left (mem_write rfl)

theorem newline_not_mem_authLine (payload : Bytes) :
    10 ∉ Utf8.encode (authLine "XOAUTH2" payload) := by
  apply Utf8.newline_not_mem_encode
  intro c hc
  simp only [authLine, String.toList_append, String.toList_ofList, List.mem_append] at hc
  have hletters : ∀ c ∈ Base64.standard, c.toNat < 128 ∧ c ≠ '\n' := by decide
  rcases hc with ((hc | hc) | hc) | hc
  · revert c
    decide
  · revert c
    decide
  · revert c
    decide
  · rcases Base64.mem_encode hc with hc | rfl
    · exact hletters c hc
    · decide

/-- The line with the token is not among the lines without credentials. -/
theorem not_plain_authLine (payload : Bytes) {sender : String} {recipients : List String}
    {raw : Bytes} : ¬ Plain sender recipients raw (Utf8.encode (authLine "XOAUTH2" payload)) := by
  have hhead (s : String) : (Utf8.encode ("AUTH " ++ s)).head? = some 65 := by
    rw [Utf8.encode_append]
    rfl
  have hauth : (Utf8.encode (authLine "XOAUTH2" payload)).head? = some 65 := by
    rw [show authLine "XOAUTH2" payload = "AUTH " ++ ("XOAUTH2" ++ " " ++
      String.ofList (Base64.encode Base64.standard true payload)) by
        simp only [authLine, String.append_assoc]]
    exact hhead _
  intro h
  generalize hline : Utf8.encode (authLine "XOAUTH2" payload) = line at h hauth
  cases h with
  | crlf => cases hauth
  | command h =>
    simp only [List.mem_cons, List.not_mem_nil, or_false] at h
    rcases h with rfl | rfl | rfl | rfl | rfl | rfl <;> exact absurd hauth (by decide)
  | mail eightBit utf8 =>
    have hmail : Utf8.encode "MAIL FROM:<" = 77 :: Utf8.encode "AIL FROM:<" := by decide
    simp [mailLine, Utf8.encode_append, hmail] at hauth
  | rcpt h =>
    have hrcpt : Utf8.encode "RCPT TO:<" = 82 :: Utf8.encode "CPT TO:<" := by decide
    simp [rcptLine, Utf8.encode_append, hrcpt] at hauth
  | data =>
    apply newline_not_mem_authLine payload
    rw [hline]
    simp [dotEncode]

end Smtp

/-! ### IMAP -/

namespace Imap

/-- The commands before TLS. -/
inductive Plain : Bytes → Prop
  | capability : Plain (Utf8.encode (String.ofList (commandLine 1 "CAPABILITY")))
  | startTls : Plain (Utf8.encode (String.ofList (commandLine 2 "STARTTLS")))

section Says

variable {B : Bytes → Prop}

theorem says_repeatedly {α β : Type} {body : α → Talk Failure (α ⊕ β)}
    (h : ∀ a, Says B (body a)) (a : α) : Says B (repeatedly body a) :=
  Says.bind Says.pending fun _ => Says.loop h _ _

theorem says_round {α β : Type} {answer : α → List Char → Talk Failure (α ⊕ β)} {a : α}
    (h : ∀ line, Says B (answer a line)) : Says B (round answer a) :=
  Says.bind Says.receive h

theorem says_readGreeting : Says B readGreeting := by
  apply Says.bind Says.receive
  intro greeting
  split_ifs
  · exact Says.pure
  · exact Says.fail

theorem says_capability {tag : ℕ}
    (h : B (Utf8.encode (String.ofList (commandLine tag "CAPABILITY")))) :
    Says B (capability tag) := by
  apply Says.bind (Says.write h)
  intro _
  apply says_repeatedly
  intro caps
  exact says_round fun _ => Says.pure

theorem says_drain (tag n : ℕ) : Says B (drain tag n) := by
  induction n with
  | zero => exact Says.pure
  | succ n ih =>
    apply Says.bind (Says.attempt Says.receive)
    intro r
    cases r with
    | error error => exact Says.pure
    | ok line =>
      simp only
      split_ifs
      · exact Says.pure
      · exact ih

theorem says_logoutAfterFailure {tag : ℕ}
    (h : B (Utf8.encode (String.ofList (commandLine tag "LOGOUT")))) :
    Says B (logoutAfterFailure tag) := by
  apply Says.bind (Says.attempt (Says.write h))
  intro r
  cases r with
  | ok _ => exact says_drain tag 4
  | error _ => exact Says.pure

/-- The answers to `LOGIN`: only a refusal has something said, a `LOGOUT`. -/
theorem says_loginAnswers {tag : ℕ}
    (h : B (Utf8.encode (String.ofList (commandLine (tag + 1) "LOGOUT")))) :
    Says B (repeatedly (round (loginLine tag)) ()) := by
  apply says_repeatedly
  intro _
  apply says_round
  intro line
  unfold loginLine
  split_ifs
  · exact Says.bind (says_logoutAfterFailure h) fun _ => Says.fail
  · exact Says.pure
  · exact Says.fail
  · exact Says.pure

end Says

/-! Under protection everything may be said. -/

section Anything

/-- All lines. -/
abbrev anything (_ : Bytes) : Prop := True

theorem says_login (tag : ℕ) (username password : String) :
    Says anything (login tag username password) :=
  Says.bind (Says.write trivial) fun _ => says_loginAnswers trivial

theorem says_authenticateXoauth2 (tag : ℕ) (username token : String) :
    Says anything (authenticateXoauth2 tag username token) := by
  apply Says.bind (Says.write trivial)
  intro _
  apply says_repeatedly
  intro _
  apply says_round
  intro line
  unfold xoauth2Line
  split_ifs
  · exact Says.bind (Says.write trivial) fun _ => Says.pure
  · exact Says.fail
  · exact Says.pure
  · exact Says.fail
  · exact Says.pure

theorem says_presentCredentials (config : ImapConfig) (tag : ℕ) :
    Says anything (presentCredentials config tag) := by
  unfold presentCredentials
  cases config.oauth2 with
  | some oauth2 =>
    simp only
    split_ifs
    · exact Says.pure
    · exact Says.bind (says_authenticateXoauth2 _ _ _) fun _ => Says.pure
    · exact Says.bind (says_authenticateXoauth2 _ _ _) fun _ => Says.pure
  | none =>
    simp only
    split_ifs
    · exact Says.pure
    · exact Says.bind (says_login _ _ _) fun _ => Says.pure

theorem says_select (tag : ℕ) (folder : String) : Says anything (select tag folder) := by
  apply Says.bind (Says.write trivial)
  intro _
  apply Says.bind
  · apply says_repeatedly
    intro uidValidity
    apply says_round
    intro line
    unfold examineLine
    simp only
    split_ifs
    · split
      · exact Says.fail
      · exact Says.pure
    · exact Says.pure
  · intro uidValidity
    cases uidValidity with
    | some uidValidity => exact Says.pure
    | none => exact Says.fail

theorem says_searchUid (tag : ℕ) (range : String) : Says anything (searchUid tag range) := by
  apply Says.bind Says.ofExcept
  intro _
  apply Says.bind (Says.write trivial)
  intro _
  apply says_repeatedly
  intro uids
  apply says_round
  intro line
  unfold searchLine
  simp only
  split_ifs
  all_goals first
    | exact Says.pure
    | split
      · exact Says.fail
      · exact Says.pure

theorem says_readResponseBytes : Says anything readResponseBytes := by
  apply says_repeatedly
  intro assembled
  apply Says.bind Says.receive
  intro line
  split_ifs
  · exact Says.fail
  · split
    · exact Says.bind Says.receive fun _ => Says.pure
    · exact Says.pure

theorem says_fetch (tag : ℕ) (uids : List ℕ) : Says anything (fetch tag uids) := by
  unfold fetch
  split_ifs
  · exact Says.pure
  · apply Says.bind (Says.write trivial)
    intro _
    apply says_repeatedly
    intro fetched
    apply Says.bind says_readResponseBytes
    intro response
    simp only
    split_ifs
    · exact Says.bind Says.ofExcept fun _ => Says.pure
    · split
      · exact Says.fail
      · exact Says.pure
    · exact Says.pure

theorem says_close (tag : ℕ) : Says anything (close tag) :=
  Says.bind (Says.attempt (Says.write trivial)) fun _ =>
    Says.bind (Says.attempt Says.receive) fun _ =>
      Says.bind (Says.attempt Says.receive) fun _ => Says.pure

theorem says_ask (tag : ℕ) (request : Request) : Says anything (ask tag request) := by
  cases request with
  | select folder => exact Says.bind (says_select tag folder) fun _ => Says.pure
  | searchUid range => exact Says.bind (says_searchUid tag range) fun _ => Says.pure
  | fetch uids => exact Says.bind (says_fetch tag uids) fun _ => Says.pure
  | close => exact Says.bind (says_close tag) fun _ => Says.pure

theorem says_converse (tag : ℕ) (requests : List Request) :
    Says anything (converse tag requests) := by
  induction requests generalizing tag with
  | nil => exact Says.pure
  | cons request requests ih =>
    apply Says.bind (Says.attempt (says_ask _ _))
    intro answer
    apply Says.bind Says.ofExcept
    intro answer
    exact Says.bind (ih _) fun _ => Says.pure

end Anything

theorem guards_connect (net : Network) (config : ImapConfig) :
    Guards Plain (connect net config) := by
  apply Guards.bind (Guards.of_saying Says.ofExcept)
  intro _
  apply Guards.bind (Guards.of_saying Says.ofExcept)
  intro _
  have hhandshake (keep : Bool) : Guards Plain (tlsHandshake net keep) :=
    Guards.bind (Guards.of_saying Says.ofExcept) fun _ => Guards.protect
  apply Guards.bind
  · unfold implicitTls
    split_ifs
    · exact hhandshake false
    · exact Guards.of_saying Says.pure
  intro _
  apply Guards.bind (Guards.of_saying says_readGreeting)
  intro _
  apply Guards.bind (Guards.of_saying (says_capability .capability))
  intro caps
  unfold upgrade
  split_ifs
  · exact Guards.of_saying Says.pure
  · apply Guards.bind
    · apply Guards.bind (Guards.of_saying (Says.write .startTls))
      intro _
      apply Guards.bind (Guards.of_saying Says.receive)
      intro response
      split_ifs
      · exact hhandshake true
      · exact Guards.of_saying Says.fail
    · intro _
      exact Guards.of_saying Says.pure
  · exact Guards.of_saying Says.pure
  · exact Guards.of_saying Says.fail

/-- Unless cleartext is allowed, the credentials are due under TLS. -/
theorem secures_connect (net : Network) {config : ImapConfig}
    (h : config.allowInsecureCleartextAuth = false) : Secures (connect net config) := by
  have hhandshake (keep : Bool) : Secures (tlsHandshake net keep) :=
    Secures.bind fun _ => Secures.protect
  unfold connect
  apply Secures.bind
  intro _
  apply Secures.bind
  intro _
  cases htls : config.useTls with
  | true =>
    apply Secures.bind_left (B := anything) (hhandshake false)
    intro _
    apply Guards.of_saying
    apply Says.bind says_readGreeting
    intro _
    apply Says.bind (says_capability trivial)
    intro caps
    unfold upgrade
    rw [if_pos htls]
    exact Says.pure
  | false =>
    apply Secures.bind
    intro _
    apply Secures.bind
    intro _
    apply Secures.bind
    intro caps
    unfold upgrade
    rw [htls, h]
    simp only [Bool.false_eq_true, if_false]
    split_ifs
    · apply Secures.bind_left (B := anything)
      · apply Secures.bind
        intro _
        apply Secures.bind
        intro response
        split_ifs
        · exact hhandshake true
        · exact Secures.fail
      · intro _
        exact Guards.of_saying Says.pure
    · exact Secures.fail

theorem guards_dialAndConverse (net : Network) {config : ImapConfig}
    (h : config.allowInsecureCleartextAuth = false) (requests : List Request) :
    Guards Plain (dialAndConverse net config requests) := by
  unfold dialAndConverse dial
  rw [bind_assoc]
  apply Guards.bind_secured (guards_connect net config) (secures_connect net h)
  intro tag
  exact Says.bind (says_presentCredentials config tag) fun tag => says_converse tag requests

end Imap

/-! ### Both transports -/

/-- Before TLS the transport writes only lines without credentials, or the host is this one. -/
def Smtp.Discreet (cfg : SmtpConfig) : Prop :=
  isLocalhost cfg.host = true ∨
    ∀ net recipients raw c, ∀ e ∈ (send net cfg recipients raw c).2,
      e.1 = true ∨ Plain cfg.sender (recipients.getD []) raw e.2

/-- Before TLS the session writes only commands without credentials, or cleartext is allowed. -/
def Imap.Discreet (config : ImapConfig) : Prop :=
  config.allowInsecureCleartextAuth = true ∨
    ∀ net requests c, ∀ e ∈ (dialAndConverse net config requests c).2, e.1 = true ∨ Plain e.2

/-- TLS is used, or there is no token to present, or there is no foreign host to connect to. -/
def Smtp.Guarded (cfg : SmtpConfig) : Prop :=
  cfg.useTls = true ∨ hasToken cfg = false ∨ isLocalhost cfg.host = true ∨ cfg.host = "" ∨
    cfg.port ≤ 0 ∨ cfg.port > 65535

theorem Smtp.Guarded.discreet {cfg : SmtpConfig} (h : Guarded cfg) : Discreet cfg := by
  cases hlocal : isLocalhost cfg.host with
  | true => exact Or.inl hlocal
  | false =>
    refine Or.inr fun net recipients raw c e he => ?_
    rw [send_log] at he
    rcases h with h | h | h | h
    · exact (guards_sendInner (Or.inl h) net recipients raw c).2 e he
    · exact (guards_sendInner (Or.inr ⟨hlocal, h⟩) net recipients raw c).2 e he
    · rw [hlocal] at h
      cases h
    · obtain ⟨error, hvalid⟩ := validate_eq_error h recipients
      rw [sendInner_log_of_invalid hvalid] at he
      cases he

theorem Smtp.not_discreet {cfg : SmtpConfig} (h : ¬ Guarded cfg) : ¬ Discreet cfg := by
  simp only [Guarded, not_or, Bool.not_eq_true, Bool.not_eq_false, not_le, gt_iff_lt, not_lt] at h
  obtain ⟨htls, htoken, hlocal, hhost, hport⟩ := h
  obtain ⟨token, hsome, hset⟩ := Option.any_eq_true .. |>.1 htoken
  rintro (hlocal' | hall)
  · rw [hlocal] at hlocal'
    cases hlocal'
  · have hset' : token.username ≠ "" ∧ token.accessToken ≠ "" := by simpa using hset
    have hmem := sends_authLine htls hsome hset' hhost hport
    rw [← send_log] at hmem
    rcases hall goodNetwork (some [""]) [] greetingServer _ hmem with h | h
    · cases h
    · dsimp only at h
      exact not_plain_authLine _ h

/-- IMAP never discloses credentials; SMTP does not exactly for these configurations. -/
theorem credentials_guarded_iff (cfg : Smtp.SmtpConfig) (config : ImapConfig) :
    (Smtp.Discreet cfg ↔ Smtp.Guarded cfg) ∧ Imap.Discreet config := by
  constructor
  · constructor
    · intro h
      by_contra hnot
      exact Smtp.not_discreet hnot h
    · exact Smtp.Guarded.discreet
  · cases hallow : config.allowInsecureCleartextAuth with
    | true => exact Or.inl hallow
    | false =>
      exact Or.inr fun net requests c e he =>
        (Imap.guards_dialAndConverse net hallow requests c).2 e he

/-- A token goes in the clear to a foreign host. -/
theorem token_disclosed :
    ¬ Smtp.Discreet { host := "mail.example", useTls := false, oauth2 := some ⟨"user", "token"⟩ } :=
  Smtp.not_discreet (by simp [Smtp.Guarded, Smtp.hasToken, Smtp.isLocalhost])

end EraseMe.Email
