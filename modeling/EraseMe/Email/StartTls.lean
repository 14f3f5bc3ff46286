import EraseMe.Email.Awaiting
import EraseMe.Email.Cleartext

/-!
# Two sessions over one TLS stream

In two runs the server sends the same under TLS, and anything before.  SMTP answers the same in
both.  IMAP does so where what was read ahead of the upgrade is passed over
(`upgraded_sessions_agree_iff`), and not otherwise.
-/

namespace EraseMe.Email

open Wire Wire.Talk

/-! ### SMTP -/

namespace Smtp

/-- The session up to the handshake. -/
def beforeTls (net : Network) : Talk String Unit := do
  ofExcept net.connected
  let _ ← expect 220
  let extensions ← hello
  if "STARTTLS" ∉ extensions then fail "SMTP server does not support STARTTLS"
  else do
    let _ ← command "STARTTLS" 220
    let buffer ← ahead
    if buffer ≠ [] then fail "SMTP bytes preceded TLS handshake"
    else ofExcept net.tls

theorem openSession_eq (net : Network) {cfg : SmtpConfig} (h : cfg.useTls = true) :
    openSession net cfg = beforeTls net >>= fun _ => protect false >>= fun _ => hello := by
  unfold openSession beforeTls
  simp only [h, if_true, bind_assoc]
  congr 1
  funext _
  congr 1
  funext _
  congr 1
  funext extensions
  unfold startTls
  split_ifs
  · simp only [bind_assoc]
    congr 1
    funext _
    congr 1
    funext buffer
    split_ifs
    · rfl
    · rfl
  · rfl

theorem says_beforeTls (net : Network) : Says Imap.anything (beforeTls net) := by
  unfold beforeTls
  apply Says.bind Says.ofExcept
  intro _
  apply Says.bind (says_expect _)
  intro _
  apply Says.bind (says_hello trivial trivial trivial)
  intro extensions
  split_ifs
  · apply Says.bind (says_command trivial trivial _)
    intro _
    apply Says.bind Says.ahead
    intro buffer
    split_ifs
    · exact Says.fail
    · exact Says.ofExcept
  · exact Says.fail

theorem respects_beforeTls (net : Network) : Respects Eq (beforeTls net) := by
  unfold beforeTls
  apply Respects.bind Respects.ofExcept
  intro _
  apply Respects.bind (respects_expect readable_eq _)
  intro _
  apply Respects.bind (respects_hello readable_eq)
  intro extensions
  split_ifs
  · apply Respects.bind (respects_command readable_eq _ _)
    intro _
    apply Respects.bind Respects.ahead
    intro buffer
    split_ifs
    · exact Respects.fail
    · exact Respects.ofExcept
  · exact Respects.fail

/-- The session has completed its upgrade. -/
def Upgrades (net : Network) (cfg : SmtpConfig) (plain : Reader) (source : Source) : Prop :=
  (openSession net cfg (start plain source)).1.2.Upgraded

/-- After the upgrade the session starts afresh. -/
theorem Upgrades.run {net : Network} {cfg : SmtpConfig} {plain : Reader} {source : Source}
    (htls : cfg.useTls = true) (h : Upgrades net cfg plain source) {α : Type}
    (rest : List String → Talk String α) :
    ((openSession net cfg >>= rest) (start plain source)).1 =
      ((hello >>= rest) (under [] source)).1 := by
  unfold Upgrades at h
  rw [openSession_eq net htls] at h
  obtain ⟨_, buffer, hbuffer, hrun⟩ := upgraded_run (says_beforeTls net) (respects_beforeTls net)
    (fun _ => says_hello trivial trivial trivial) h
  rw [openSession_eq net htls, bind_assoc]
  simp only [bind_assoc]
  rw [hrun (fun _ => hello >>= rest) source, hbuffer rfl]

/-- Whatever goes on after the upgrade goes on alike. -/
theorem Upgrades.agree {net net' : Network} {cfg : SmtpConfig} {plain plain' : Reader}
    {source source' : Source} (htls : cfg.useTls = true) (h : Upgrades net cfg plain source)
    (h' : Upgrades net' cfg plain' source') (hsource : source.Alike source') {α : Type}
    {rest : List String → Talk String α} (hrest : ∀ a, Respects Reader.Alike (rest a)) :
    ((openSession net cfg >>= rest) (start plain source)).1.1 =
      ((openSession net' cfg >>= rest) (start plain' source')).1.1 := by
  rw [h.run htls, h'.run htls]
  have hrespects : Respects Reader.Alike (hello >>= rest) :=
    Respects.bind (respects_hello readable_alike) hrest
  exact (hrespects.agree (under_alike hsource [])).1

/-- The session up to the authentication. -/
def authenticated (net : Network) (cfg : SmtpConfig) : Talk String Unit := do
  let _ ← openSession net cfg
  presentCredentials cfg

theorem sendInner_agree {net net' : Network} {cfg : SmtpConfig} {plain plain' : Reader}
    {source source' : Source} (htls : cfg.useTls = true) (h : Upgrades net cfg plain source)
    (h' : Upgrades net' cfg plain' source') (hsource : source.Alike source')
    (recipients : Option (List String)) (raw : Bytes) :
    (sendInner net cfg recipients raw (start plain source)).1.1 =
      (sendInner net' cfg recipients raw (start plain' source')).1.1 := by
  unfold sendInner
  cases validate cfg recipients with
  | error error => rfl
  | ok list =>
    apply h.agree htls h' hsource
    intro extensions
    exact Respects.bind (respects_presentCredentials readable_alike cfg) fun _ =>
      respects_deliver readable_alike _ _ _ _

theorem send_eq (net : Network) (cfg : SmtpConfig) (recipients : Option (List String))
    (raw : Bytes) (c : Conn) :
    (send net cfg recipients raw c).1.1 =
      (sendInner net cfg recipients raw c).1.1.mapError (redactError · cfg.secrets) := by
  unfold send
  rcases sendInner net cfg recipients raw c with ⟨⟨_ | _, c'⟩, log⟩
  · rfl
  · rfl

end Smtp

/-! ### IMAP: what was read ahead -/

namespace Imap

/-- The session up to the capabilities. -/
def beforeUpgrade (net : Network) (config : ImapConfig) : Talk Failure (List (List Char)) := do
  ofExcept (if config.host = "" then .error (imapFailure "host is empty") else .ok ())
  ofExcept (net.connected.mapError .message)
  readGreeting
  capability 1

/-- The request for the upgrade. -/
def beforeTls (net : Network) : Talk Failure Unit := do
  writeCommand 2 "STARTTLS"
  let response ← readLine
  if (tagOf 2 ++ " OK".toList).isPrefixOf response then ofExcept (net.tls.mapError .message)
  else fail (connectFailure ("STARTTLS failed: ".toList ++ response))

theorem connect_eq (net : Network) {config : ImapConfig} (h : config.useTls = false) :
    connect net config = beforeUpgrade net config >>= upgrade net config := by
  unfold connect beforeUpgrade implicitTls
  simp only [h, Bool.false_eq_true, if_false, bind_assoc, pure_bind]

theorem startTls_eq (net : Network) :
    startTls net 2 = beforeTls net >>= fun _ => protect true := by
  unfold startTls beforeTls
  simp only [bind_assoc]
  congr 1
  funext _
  congr 1
  funext response
  split_ifs
  · rfl
  · rfl

theorem says_beforeUpgrade (net : Network) (config : ImapConfig) :
    Says anything (beforeUpgrade net config) :=
  Says.bind Says.ofExcept fun _ => Says.bind Says.ofExcept fun _ =>
    Says.bind says_readGreeting fun _ => says_capability trivial

theorem respects_beforeUpgrade (net : Network) (config : ImapConfig) :
    Respects Eq (beforeUpgrade net config) :=
  Respects.bind Respects.ofExcept fun _ => Respects.bind Respects.ofExcept fun _ =>
    Respects.bind (respects_readGreeting readable_eq) fun _ => respects_capability readable_eq 1

theorem says_beforeTls (net : Network) : Says anything (beforeTls net) := by
  apply Says.bind (Says.write trivial)
  intro _
  apply Says.bind Says.receive
  intro response
  split_ifs
  · exact Says.ofExcept
  · exact Says.fail

theorem respects_beforeTls (net : Network) : Respects Eq (beforeTls net) := by
  apply Respects.bind Respects.write
  intro _
  apply Respects.bind (respects_readLine readable_eq)
  intro response
  split_ifs
  · exact Respects.ofExcept
  · exact Respects.fail

/-- The session has completed its upgrade. -/
def Upgrades (net : Network) (config : ImapConfig) (plain : Reader) (source : Source) : Prop :=
  (connect net config (start plain source)).1.2.Upgraded

/-- What the reader keeps over the upgrade. -/
def readAhead (net : Network) (config : ImapConfig) (plain : Reader) (source : Source) : Bytes :=
  (connect net config (start plain source)).1.2.reader.buffer

/-- After the upgrade the session goes on with what was read ahead and with what comes under TLS,
whatever that is. -/
theorem Upgrades.run {net : Network} {config : ImapConfig} {plain : Reader} {source : Source}
    (htls : config.useTls = false) (h : Upgrades net config plain source) :
    ∃ buffer, ∀ source', (connect net config (start plain source')).1 =
      (.ok 2, under buffer source') := by
  unfold Upgrades at h
  rw [connect_eq net htls] at h ⊢
  obtain ⟨r, reader, hrun⟩ := plain_run (says_beforeUpgrade net config)
    (respects_beforeUpgrade net config) plain
  have hsplit (source' : Source) :
      ((beforeUpgrade net config >>= upgrade net config) (start plain source')).1 = match r with
        | .ok caps => (upgrade net config caps (start reader source')).1
        | .error e => (.error e, start reader source') := by
    cases r with
    | ok caps => exact run_bind_ok (hrun source')
    | error e => exact run_bind_error (hrun source')
  rw [hsplit] at h
  simp only [hsplit]
  cases r with
  | error e => cases h.1
  | ok caps =>
    simp only at h ⊢
    unfold upgrade at h ⊢
    simp only [htls, Bool.false_eq_true, if_false] at h ⊢
    by_cases hcaps : "STARTTLS".toList ∈ caps
    · simp only [if_pos hcaps, startTls_eq, bind_assoc] at h ⊢
      obtain ⟨_, buffer, -, hrest⟩ := upgraded_run (says_beforeTls net) (respects_beforeTls net)
        (fun _ => Says.pure) h
      exact ⟨buffer, fun source' => hrest (fun _ => pure 2) source'⟩
    · simp only [if_neg hcaps] at h
      cases hallow : config.allowInsecureCleartextAuth with
      | true =>
        rw [hallow] at h
        cases h.1
      | false =>
        rw [hallow] at h
        cases h.1

/-- The kept bytes do not depend on what comes under TLS. -/
theorem Upgrades.run_readAhead {net : Network} {config : ImapConfig} {plain : Reader}
    {source : Source} (htls : config.useTls = false) (h : Upgrades net config plain source)
    (source' : Source) :
    (connect net config (start plain source')).1 =
      (.ok 2, under (readAhead net config plain source) source') := by
  obtain ⟨buffer, hrun⟩ := h.run htls
  have hbuffer : readAhead net config plain source = buffer := by
    unfold readAhead
    rw [hrun source]
    rfl
  rw [hrun source', hbuffer]

/-- The session after the upgrade. -/
theorem Upgrades.dialAndConverse {net : Network} {config : ImapConfig} {plain : Reader}
    {source : Source} (htls : config.useTls = false) (h : Upgrades net config plain source)
    (source' : Source) (requests : List Request) :
    (dialAndConverse net config requests (start plain source')).1 =
      ((presentCredentials config 2 >>= fun tag => converse tag requests)
        (under (readAhead net config plain source) source')).1 := by
  unfold Imap.dialAndConverse dial
  rw [bind_assoc]
  exact run_bind_ok (h.run_readAhead htls source')

/-! ### IMAP: what is passed over -/

/-- A tagged line of the first command after the upgrade starts with these characters. -/
def mark : List Char := tagOf 3 ++ [' ']

/-- The configuration has credentials to present. -/
def authenticates (config : ImapConfig) : Bool :=
  match config.oauth2 with
  | some oauth2 => oauth2.accessToken ≠ ""
  | none => config.password ≠ ""

/-- With credentials, what comes first is a command that waits for its tag. -/
theorem presentCredentials_eq {config : ImapConfig} (h : authenticates config = true) :
    ∃ text answer, presentCredentials config 2 =
        (do writeCommand 3 text; repeatedly (round answer) (); pure 3) ∧
      Awaits mark answer ∧ (∀ line, Respects Reader.Alike (answer () line)) ∧
      ∀ c, (answer () "A003 OK x".toList c).1 = (.ok (.inr ()), c) := by
  unfold authenticates at h
  unfold presentCredentials
  cases htoken : config.oauth2 with
  | some oauth2 =>
    rw [htoken] at h
    simp only at h ⊢
    rw [if_neg (of_decide_eq_true h)]
    refine ⟨?text, xoauth2Line 3, ?eq, awaits_xoauth2 3, respects_xoauth2Line 3, fun c => rfl⟩
    case eq =>
      unfold authenticateXoauth2
      rw [bind_assoc]
  | none =>
    rw [htoken] at h
    simp only at h ⊢
    rw [if_neg (of_decide_eq_true h)]
    refine ⟨?words, loginLine 3, ?equation, awaits_login 3, respects_loginLine readable_alike 3,
      fun c => rfl⟩
    case equation =>
      unfold login
      rw [bind_assoc]

theorem presentCredentials_of_not {config : ImapConfig} (h : authenticates config = false) :
    presentCredentials config 2 = pure 2 := by
  unfold authenticates at h
  unfold presentCredentials
  cases htoken : config.oauth2 with
  | some oauth2 =>
    rw [htoken] at h
    simp only [ne_eq, decide_eq_false_iff_not, not_not] at h ⊢
    rw [if_pos h]
  | none =>
    rw [htoken] at h
    simp only [ne_eq, decide_eq_false_iff_not, not_not] at h ⊢
    rw [if_pos h]

/-- What was read ahead does no harm: the wait for the answer to the credentials passes it over, or
there are no credentials and nothing was read ahead. -/
def Harmless (config : ImapConfig) (buffer : Bytes) : Prop :=
  if authenticates config then PassedOver mark buffer else buffer = []

/-- The session after the upgrade. -/
def resume (config : ImapConfig) (requests : List Request) :
    Talk Failure (List (Except String Answer)) :=
  presentCredentials config 2 >>= fun tag => converse tag requests

/-- Under the same bytes, what is harmless makes no difference to a session. -/
theorem Harmless.agree {config : ImapConfig} {buffer : Bytes} (h : Harmless config buffer)
    {source source' : Source} (hsource : source.Alike source') (requests : List Request) :
    (resume config requests (under buffer source)).1.1 =
      (resume config requests (under [] source')).1.1 := by
  unfold resume
  unfold Harmless at h
  cases hauth : authenticates config with
  | false =>
    rw [hauth] at h
    simp only [Bool.false_eq_true, if_false] at h
    rw [presentCredentials_of_not hauth, h, pure_bind]
    exact ((respects_converse readable_alike 2 requests).agree (under_alike hsource [])).1
  | true =>
    rw [hauth, if_pos rfl] at h
    obtain ⟨text, answer, heq, hwaits, hrespects, -⟩ := presentCredentials_eq hauth
    rw [heq, bind_assoc]
    simp only [bind_assoc, pure_bind]
    unfold writeCommand writeLine
    rw [run_write_bind rfl, run_write_bind rfl]
    have hbytes : (under buffer source).reader.bytes = buffer ++ (under [] source').reader.bytes := by
      simp [under, Reader.bytes, hsource.1]
    have hagree := repeatedly_agree hwaits (by decide) hrespects h hbytes hsource.2 rfl rfl rfl
    exact (hagree.bind fun _ => respects_converse readable_alike 3 requests).1

/-! ### IMAP: what shows -/

/-- A connection on which some bytes come under TLS, after what was kept. -/
def plainly (t : Bytes) : Source := ⟨[t], none⟩

theorem plainly_bytes (buffer t : Bytes) : (under buffer (plainly t)).reader.bytes = buffer ++ t := by
  simp [under, plainly, Reader.bytes]

theorem lineText_done :
    lineText (octets mark ++ [79, 75, 32, 120] ++ [10]) = .ok "A003 OK x".toList := by
  decide

/-- What the wait for the answer to the credentials does not pass over shows. -/
theorem shows_authenticating {config : ImapConfig} {buffer : Bytes}
    (hauth : authenticates config = true) (h : ¬ PassedOver mark buffer) :
    ∃ t, (resume config [] (under buffer (plainly t))).1.1 ≠
      (resume config [] (under [] (plainly t))).1.1 := by
  obtain ⟨text, answer, heq, hwaits, hrespects, hdone⟩ := presentCredentials_eq hauth
  obtain ⟨b, r, rfl, hb, hr, hstuck⟩ := (passedOver_or mark buffer).resolve_left h
  obtain ⟨t, ht⟩ := told_apart hwaits 65 [48, 48, 51, 32] (by decide) (by decide) hr
    hstuck [79, 75, 32, 120] (by decide) _ lineText_done
    (fun _ c => ⟨(), hdone c⟩) ()
  refine ⟨t, fun hsame => ?_⟩
  -- the session without commands returns what the wait returns
  have hresume (kept : Bytes) : (resume config [] (under kept (plainly t))).1.1 =
      (repeatedly (round answer) () (under kept (plainly t))).1.1.map fun _ => [] := by
    unfold resume
    rw [heq, bind_assoc]
    simp only [bind_assoc, pure_bind]
    unfold writeCommand writeLine
    rw [run_write_bind rfl, run_bind]
    rcases repeatedly (round answer) () (under kept (plainly t)) with ⟨⟨e | u, c⟩, log⟩
    · rfl
    · rfl
  rw [hresume, hresume] at hsame
  obtain ⟨reader, hrest, hending, n, hn, hrun⟩ := rounds_passedOver hwaits hb
    (c := under (b ++ r) (plainly t)) (t := r ++ t) (by rw [plainly_bytes, List.append_assoc]) rfl
  have hfuel : (under (b ++ r) (plainly t)).reader.bytes.length + 1 = r.length + t.length +
      (b.length - n) + 1 + n := by
    rw [plainly_bytes]
    simp only [List.length_append]
    omega
  have hleft : (repeatedly (round answer) () (under (b ++ r) (plainly t))).1 =
      (rounds answer (r.length + t.length + (b.length - n) + 1) ()
        { under (b ++ r) (plainly t) with reader }).1 := by
    rw [repeatedly_round, hfuel, hrun]
  have hne := ht { under (b ++ r) (plainly t) with reader } (under [] (plainly t)) hrest
    (plainly_bytes [] t) hending rfl rfl rfl (r.length + t.length + (b.length - n))
  rw [← hleft] at hne
  apply hne
  generalize (repeatedly (round answer) () (under (b ++ r) (plainly t))).1.1 = x at hsame
  generalize (repeatedly (round answer) () (under [] (plainly t))).1.1 = y at hsame
  cases x with
  | error e =>
    cases y with
    | error e' => simpa [Except.map] using hsame
    | ok v => simp [Except.map] at hsame
  | ok u =>
    cases y with
    | error e' => simp [Except.map] at hsame
    | ok v => rfl

/-! Without credentials anything that was read ahead shows. -/

/-- What a search answers in a session. -/
def settle : Except Failure (List ℕ) → Except Failure (List (Except String Answer))
  | .ok uids => .ok [.ok (.uids uids)]
  | .error (.message text) => .ok [.error text]
  | .error .diverged => .error .diverged

theorem settle_injective {x y : Except Failure (List ℕ)} (h : settle x = settle y) : x = y := by
  rcases x with (_ | _) | _ <;> rcases y with (_ | _) | _ <;> simp_all [settle]

theorem writeCommand_eq {tag : ℕ} {text : String} {c : Conn} (h : c.broken = none) :
    (writeCommand tag text c).1 = (.ok (), c) := write_eq h

theorem converse_search (tag : ℕ) {c : Conn} (h : c.broken = none) :
    (converse tag [.searchUid "1"] c).1.1 =
      settle (repeatedly (round (searchLine (tag + 1))) [] c).1.1 := by
  have hask : (ask (tag + 1) (.searchUid "1") c).1 =
      ((repeatedly (round (searchLine (tag + 1))) [] >>= fun uids => pure (.uids uids)) c).1 := by
    unfold ask searchUid
    simp only [bind_assoc]
    rw [show validateUidRange "1" = .ok () by decide]
    exact run_write_bind h
  unfold converse
  rw [run_bind, run_attempt, hask, run_bind]
  rcases repeatedly (round (searchLine (tag + 1))) [] c with ⟨⟨(text | _) | uids, c'⟩, log⟩
  · rfl
  · rfl
  · rfl

theorem ask_close (tag : ℕ) {c : Conn} (hending : c.reader.ending = none) (h : c.broken = none) :
    ∃ reader : Reader, reader.bytes = dropLine (dropLine c.reader.bytes) ∧ reader.ending = none ∧
      (ask tag .close c).1 = (.ok .closed, { c with reader }) := by
  obtain ⟨reader, hbytes, hending', hrun⟩ := run_readOctets hending
  obtain ⟨reader', hbytes', hending'', hrun'⟩ := run_readOctets (c := { c with reader }) hending'
  refine ⟨reader', hbytes'.trans (by rw [← hbytes]), hending'', ?_⟩
  unfold ask close
  simp only [bind_assoc]
  rw [run_bind_ok (attempt_eq (writeCommand_eq h)), run_bind_ok (attempt_eq (congrArg Prod.fst hrun)),
    run_bind_ok (attempt_eq (congrArg Prod.fst hrun'))]
  rfl

theorem converse_close {tag : ℕ} {requests : List Request} {c c' : Conn}
    (h : (ask (tag + 1) .close c).1 = (.ok .closed, c')) :
    (converse tag (.close :: requests) c).1 =
      ((converse (tag + 1) requests >>= fun answers => pure (.ok .closed :: answers)) c').1 :=
  run_bind_ok (attempt_eq h)

/-- Every `close` drops two lines. -/
theorem converse_closes (k : ℕ) (requests : List Request) (tag : ℕ) {c : Conn}
    (hending : c.reader.ending = none) (h : c.broken = none) :
    ∃ reader : Reader, reader.bytes = dropLine^[2 * k] c.reader.bytes ∧ reader.ending = none ∧
      (converse tag (List.replicate k .close ++ requests) c).1.1 =
        (converse (tag + k) requests { c with reader }).1.1.map
          (List.replicate k (.ok .closed) ++ ·) := by
  induction k generalizing tag c with
  | zero =>
    refine ⟨c.reader, rfl, hending, ?_⟩
    show (converse tag requests c).1.1 = (converse tag requests c).1.1.map fun l => l
    cases (converse tag requests c).1.1 <;> rfl
  | succ k ih =>
    obtain ⟨reader, hbytes, hending', hask⟩ := ask_close (tag + 1) hending h
    obtain ⟨reader', hbytes', hending'', hrest⟩ := ih (tag + 1) (c := { c with reader }) hending' h
    refine ⟨reader', ?_, hending'', ?_⟩
    · rw [hbytes']
      show dropLine^[2 * k] reader.bytes = _
      rw [hbytes, show 2 * (k + 1) = 2 * k + 1 + 1 by ring, Function.iterate_succ_apply,
        Function.iterate_succ_apply]
    · rw [show tag + (k + 1) = tag + 1 + k by ring]
      rw [List.replicate_succ, List.cons_append]
      rw [converse_close hask, run_bind]
      generalize converse (tag + 1) (List.replicate k .close ++ requests) { c with reader } = run
        at hrest
      obtain ⟨⟨r, c'⟩, log⟩ := run
      simp only at hrest
      rw [hrest]
      cases (converse (tag + 1 + k) requests { c with reader := reader' }).1.1 with
      | error e => subst hrest; rfl
      | ok answers => subst hrest; rfl

/-- Dropping its complete lines leaves the last part of the bytes. -/
theorem iterate_dropLine (b : Bytes) :
    ∃ p m, 10 ∉ p ∧ (m = 0 → b = p) ∧ ∀ s, dropLine^[m] (b ++ s) = p ++ s := by
  induction hn : b.length using Nat.strong_induction_on generalizing b with
  | _ n ih =>
    by_cases h10 : 10 ∈ b
    · obtain ⟨l, s, rfl, hl⟩ := List.eq_append_cons_of_mem h10
      obtain ⟨p, m, hp, -, hdrop⟩ := ih s.length (by simp at hn; omega) s rfl
      refine ⟨p, m + 1, hp, nofun, fun t => ?_⟩
      rw [Function.iterate_succ_apply, List.append_assoc, List.cons_append, dropLine_line hl, hdrop]
    · exact ⟨b, 0, h10, fun _ => rfl, fun _ => rfl⟩

theorem iterate_dropLine_blank {m : ℕ} (hm : m ≠ 0) {p : Bytes} (hp : 10 ∉ p) (s : Bytes) :
    dropLine^[m] (p ++ (List.replicate m 10 ++ s)) = s := by
  induction m generalizing p with
  | zero => exact absurd rfl hm
  | succ m ih =>
    rw [Function.iterate_succ_apply, List.replicate_succ, List.cons_append, dropLine_line hp]
    by_cases h : m = 0
    · rw [h]
      rfl
    · exact ih h (p := []) List.not_mem_nil

theorem lineText_marked (uids : List ℕ) (c : Conn) :
    ∃ found, (searchLine 3 uids "A003".toList c).1 = (.ok (.inr found), c) := ⟨uids, rfl⟩

theorem shows_anonymous {buffer : Bytes} (h : buffer ≠ []) :
    ∃ t requests, (converse 2 requests (under buffer (plainly t))).1.1 ≠
      (converse 2 requests (under [] (plainly t))).1.1 := by
  obtain ⟨p, m, hp, hwhole, hdrop⟩ := iterate_dropLine buffer
  by_cases hm : m = 0
  · -- a part of a line: a search does not see its tag
    have hbuffer := hwhole hm
    subst hbuffer
    obtain ⟨t, ht⟩ := told_apart (awaits_search 3) 65 [48, 48, 51] (by decide) (by decide) h
      (fun h10 => absurd h10 hp) [] (by decide) "A003".toList (by decide)
      lineText_marked []
    refine ⟨t, [.searchUid "1"], fun hsame => ?_⟩
    rw [converse_search 2 rfl, converse_search 2 rfl] at hsame
    refine ht _ _ (plainly_bytes buffer t) (plainly_bytes [] t) rfl rfl rfl rfl
      (under buffer (plainly t)).reader.bytes.length ?_
    exact settle_injective hsame
  · -- complete lines: after some `close` the sessions are at different lines
    let t : Bytes := List.replicate m 10 ++ ([255] ++ (List.replicate m 10 ++ []))
    refine ⟨t, List.replicate m .close ++ [.searchUid "1"], fun hsame => ?_⟩
    obtain ⟨reader, hbytes, hending, hrun⟩ :=
      converse_closes m [.searchUid "1"] 2 (c := under buffer (plainly t)) rfl rfl
    obtain ⟨reader', hbytes', hending', hrun'⟩ :=
      converse_closes m [.searchUid "1"] 2 (c := under [] (plainly t)) rfl rfl
    rw [plainly_bytes, two_mul, Function.iterate_add_apply, hdrop,
      iterate_dropLine_blank hm hp] at hbytes
    rw [plainly_bytes, two_mul, Function.iterate_add_apply, List.nil_append,
      show t = [] ++ t from rfl, iterate_dropLine_blank hm List.not_mem_nil,
      iterate_dropLine_blank hm (p := [255]) (by decide)] at hbytes'
    have hend := rounds_end (c := { under [] (plainly t) with reader := reader' })
      (awaits_search (2 + m + 1)) (by simp [tagOf]) rfl hbytes' hending'
      (reader'.bytes.length + 1) []
    have hgone : lineText ([255] ++ [10]) = .error (readFailure
        "stream did not contain valid UTF-8") := by decide
    have hline : upTo none reader.bytes = [255] ++ [10] := by
      obtain ⟨j, rfl⟩ := Nat.exists_eq_succ_of_ne_zero hm
      rw [hbytes, List.replicate_succ, List.cons_append]
      exact upTo_line (l := [255]) (by decide) _
    have hanswer := rounds_answer (c := { under buffer (plainly t) with reader })
      (awaits_search (2 + m + 1)) (Or.inl hending) (a := [])
      (by rw [hline, hgone]; rintro s ⟨⟩) reader.bytes.length
    rw [hrun, hrun', converse_search _ rfl, converse_search _ rfl, repeatedly_round,
      repeatedly_round] at hsame
    rw [hend] at hsame
    generalize hleft : (rounds (searchLine (2 + m + 1)) (reader.bytes.length + 1) []
      { under buffer (plainly t) with reader }).1.1 = x at hanswer hsame
    rcases x with (text | _) | uids
    · simp [settle, Except.map] at hsame
    · exact hanswer rfl
    · simp [settle, Except.map] at hsame

/-- Whatever does harm shows in some session. -/
theorem shows {config : ImapConfig} {buffer : Bytes} (h : ¬ Harmless config buffer) :
    ∃ t requests, (resume config requests (under buffer (plainly t))).1.1 ≠
      (resume config requests (under [] (plainly t))).1.1 := by
  unfold Harmless at h
  cases hauth : authenticates config with
  | true =>
    rw [hauth, if_pos rfl] at h
    obtain ⟨t, ht⟩ := shows_authenticating hauth h
    exact ⟨t, [], ht⟩
  | false =>
    rw [hauth] at h
    simp only [Bool.false_eq_true, if_false] at h
    have hresume (requests : List Request) : resume config requests = converse 2 requests := by
      unfold resume
      rw [presentCredentials_of_not hauth, pure_bind]
    obtain ⟨t, requests, ht⟩ := shows_anonymous h
    refine ⟨t, requests, ?_⟩
    rwa [hresume]

/-! A server that sends nothing ahead. -/

/-- A server that reads before it writes. -/
def punctualServer : Reader :=
  ⟨[], [Utf8.encode "* OK IMAP4rev1\r\n", Utf8.encode "* CAPABILITY IMAP4rev1 STARTTLS\r\n",
    Utf8.encode "A001 OK\r\n", Utf8.encode "A002 OK\r\n"], none⟩

theorem connect_punctualServer {config : ImapConfig} (hhost : config.host ≠ "")
    (htls : config.useTls = false) (source : Source) :
    (connect Smtp.goodNetwork config (start punctualServer source)).1 =
      (.ok 2, under [] source) := by
  have hrun : (connect Smtp.goodNetwork config (start punctualServer ⟨[], none⟩)).1 =
      (.ok 2, under [] ⟨[], none⟩) := by
    unfold connect upgrade
    rw [if_neg hhost, htls]
    cases config.allowInsecureCleartextAuth <;> decide
  have hup : Upgrades Smtp.goodNetwork config punctualServer ⟨[], none⟩ := by
    unfold Upgrades
    rw [hrun]
    exact ⟨rfl, rfl⟩
  have hahead : readAhead Smtp.goodNetwork config punctualServer ⟨[], none⟩ = [] := by
    unfold readAhead
    rw [hrun]
    rfl
  rw [hup.run_readAhead htls source, hahead]

theorem host_of_upgrades {net : Network} {config : ImapConfig} {plain : Reader} {source : Source}
    (h : Upgrades net config plain source) : config.host ≠ "" := by
  intro hhost
  unfold Upgrades connect at h
  rw [if_pos hhost] at h
  cases h.1

/-- Two runs of IMAP answer the same under TLS, whatever comes there. -/
def SameAnswers (config : ImapConfig) (net net' : Network) (plain plain' : Reader) : Prop :=
  ∀ source source', source.Alike source' → ∀ requests,
    (dialAndConverse net config requests (start plain source)).1.1 =
      (dialAndConverse net' config requests (start plain' source')).1.1

/-- A run answers like all the runs that have read nothing harmful ahead, exactly when it has not
either. -/
theorem sameAnswers_iff {net : Network} {config : ImapConfig} {plain : Reader} {source : Source}
    (htls : config.useTls = false) (h : Upgrades net config plain source) :
    (∀ net' plain' source', Upgrades net' config plain' source' →
      Harmless config (readAhead net' config plain' source') →
        SameAnswers config net net' plain plain') ↔
      Harmless config (readAhead net config plain source) := by
  constructor
  · intro hall
    by_contra hharm
    obtain ⟨t, requests, hne⟩ := shows hharm
    have hclean := connect_punctualServer (host_of_upgrades h) htls (plainly t)
    have hup : Upgrades Smtp.goodNetwork config punctualServer (plainly t) := by
      unfold Upgrades
      rw [hclean]
      exact ⟨rfl, rfl⟩
    have hahead : readAhead Smtp.goodNetwork config punctualServer (plainly t) = [] := by
      unfold readAhead
      rw [hclean]
      rfl
    have hharmless : Harmless config [] := by
      unfold Harmless
      split_ifs
      · exact .nil
      · rfl
    have hsame := hall _ _ _ hup (by rw [hahead]; exact hharmless) (plainly t) (plainly t)
      ⟨rfl, rfl⟩ requests
    rw [h.dialAndConverse htls, hup.dialAndConverse htls, hahead] at hsame
    exact hne hsame
  · intro hharmless net' plain' source' h' hharmless' s s' hs requests
    rw [h.dialAndConverse htls, h'.dialAndConverse htls]
    exact (hharmless.agree hs requests).trans (hharmless'.agree ⟨rfl, rfl⟩ requests).symm

end Imap

/-! ### Both transports -/

/-- Under one TLS stream SMTP answers the same whatever came before.  IMAP does exactly where nothing
harmful was read ahead. -/
theorem upgraded_sessions_agree_iff (cfg : Smtp.SmtpConfig) (config : ImapConfig) :
    (∀ net net' plain plain' source source', cfg.useTls = true → source.Alike source' →
      Smtp.Upgrades net cfg plain source → Smtp.Upgrades net' cfg plain' source' →
        (Smtp.openSession net cfg (start plain source)).1.1 =
            (Smtp.openSession net' cfg (start plain' source')).1.1 ∧
          (Smtp.authenticated net cfg (start plain source)).1.1 =
            (Smtp.authenticated net' cfg (start plain' source')).1.1 ∧
          ∀ recipients raw, (Smtp.send net cfg recipients raw (start plain source)).1.1 =
            (Smtp.send net' cfg recipients raw (start plain' source')).1.1) ∧
    ∀ net plain source, config.useTls = false → Imap.Upgrades net config plain source →
        ((∀ net' plain' source', Imap.Upgrades net' config plain' source' →
          Imap.Harmless config (Imap.readAhead net' config plain' source') →
            Imap.SameAnswers config net net' plain plain') ↔
          Imap.Harmless config (Imap.readAhead net config plain source)) := by
  constructor
  · intro net net' plain plain' source source' htls hsource h h'
    refine ⟨?_, ?_, fun recipients raw => ?_⟩
    · have hpure (a : List String) :
          Respects Reader.Alike (pure a : Talk String (List String)) := Respects.pure
      have hopen := h.agree htls h' hsource hpure
      rwa [bind_pure, bind_pure] at hopen
    · exact h.agree htls h' hsource fun _ => Smtp.respects_presentCredentials readable_alike cfg
    · rw [Smtp.send_eq, Smtp.send_eq, Smtp.sendInner_agree htls h h' hsource]
  · intro net plain source htls h
    exact Imap.sameAnswers_iff htls h

/-- Two servers say different things before the handshake, and the same under TLS in other pieces:
both offer the same. -/
theorem upgraded_sessions_agree_punctual :
    let cfg : Smtp.SmtpConfig := { host := "mail.example", port := 587 }
    let plain : Reader :=
      ⟨[], [Utf8.encode "220 ready\r\n", Utf8.encode "250-mail\r\n250 STARTTLS\r\n",
        Utf8.encode "220 go\r\n"], none⟩
    let pieces : Reader :=
      ⟨[], [Utf8.encode "220", Utf8.encode " hi\r\n", Utf8.encode "250-other\r\n",
        Utf8.encode "250 STARTTLS\r\n", Utf8.encode "220 \r\n"], none⟩
    let source : Source := ⟨[Utf8.encode "250-mail\r\n250 AUTH PLAIN\r\n"], none⟩
    let source' : Source :=
      ⟨[Utf8.encode "250-mail\r\n250 AU", Utf8.encode "TH PLAIN\r\n"], none⟩
    (Smtp.openSession Smtp.goodNetwork cfg (start plain source)).1.1 = .ok ["AUTH"] ∧
      (Smtp.openSession Smtp.goodNetwork cfg (start pieces source')).1.1 = .ok ["AUTH"] := by
  intro cfg plain pieces source source'
  have hplain : Smtp.Upgrades Smtp.goodNetwork cfg plain source := by
    unfold Smtp.Upgrades Conn.Upgraded
    decide +kernel
  have hpieces : Smtp.Upgrades Smtp.goodNetwork cfg pieces source' := by
    unfold Smtp.Upgrades Conn.Upgraded
    decide +kernel
  have hopen : (Smtp.openSession Smtp.goodNetwork cfg (start plain source)).1.1 =
      .ok ["AUTH"] := by decide +kernel
  have hsource : source.Alike source' := ⟨by decide +kernel, rfl⟩
  have hagree := ((upgraded_sessions_agree_iff cfg { host := "mail.example" }).1 _ _ _ _ _ _ rfl
    hsource hplain hpieces).1
  exact ⟨hopen, hagree ▸ hopen⟩

/-- A refusal that came with the answer to `STARTTLS` is believed. -/
theorem refusal_believed :
    let config : ImapConfig :=
      { host := "mail.example", username := "u", password := "p", useTls := false }
    let injected : Reader :=
      ⟨[], [Utf8.encode "* OK IMAP4rev1\r\n", Utf8.encode "* CAPABILITY IMAP4rev1 STARTTLS\r\n",
        Utf8.encode "A001 OK\r\n",
        Utf8.encode "A002 OK\r\nA003 NO [AUTHENTICATIONFAILED] go away\r\n"], none⟩
    let source : Source := ⟨[Utf8.encode "A003 OK done\r\n"], none⟩
    Imap.Upgrades Smtp.goodNetwork config Imap.punctualServer source ∧
      Imap.Upgrades Smtp.goodNetwork config injected source ∧
      (Imap.dialAndConverse Smtp.goodNetwork config [] (start Imap.punctualServer source)).1.1 =
        .ok [] ∧
      (Imap.dialAndConverse Smtp.goodNetwork config [] (start injected source)).1.1 =
        .error (.message "email: imap error: connect/login failed: go away") :=
  ⟨⟨by decide, by decide⟩, ⟨by decide, by decide⟩,
    by decide +kernel, by decide +kernel⟩

end EraseMe.Email
