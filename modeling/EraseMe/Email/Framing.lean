import EraseMe.Email.Cleartext
import EraseMe.Library.DotLines
import EraseMe.Library.Utf8Text

/-!
# The message on the wire

After `DATA` the message goes out through one loop with two flags: whether a line starts, and
whether the byte before was a `CR`.  What a receiver reads by the rules of mail data is the message
in its canonical form (`readData_dotEncode`); no part of it ends the data early, and only `QUIT` is
written behind it (`data_transparent`).
-/

namespace EraseMe.Email.Smtp

open DotLines Wire Wire.Talk

/-! ### The canonical form -/

/-- The text with every line feed that has no `CR` before it turned into both characters. -/
def crlfLines : Bool → Bytes → Bytes
  | _, [] => []
  | previousCr, b :: s =>
      (if b = 10 ∧ previousCr = false then [13] else []) ++ b :: crlfLines (b = 13) s

/-- The text with a line end after its last line, if it has none. -/
def endLine (raw : Bytes) : Bytes := if raw.getLast? = some 10 then raw else raw ++ [10]

/-- Every line, also the last, ends with both characters.  A `CR` at the end of the message is the
first half of its last line end. -/
def canonical (raw : Bytes) : Bytes := crlfLines false (endLine raw)

/-- The `CR` that is due before a line feed. -/
def dueCr (line : Bytes) : Bytes := if line.getLast? = some 13 then [] else [13]

variable {line : Bytes} {raw : Bytes}

theorem crlfLines_append (h : 10 ∉ line) (previousCr : Bool) (s : Bytes) :
    crlfLines previousCr (line ++ s) =
      line ++ crlfLines ((line.getLast?.map fun b => decide (b = 13)).getD previousCr) s := by
  induction line generalizing previousCr with
  | nil => rfl
  | cons b line ih =>
    rw [List.mem_cons, not_or] at h
    rw [List.cons_append, crlfLines, if_neg fun hb => h.1 hb.1.symm, ih h.2]
    cases line with
    | nil => rfl
    | cons c line => rfl

/-- The line feed ends the line, whatever the line ends with. -/
theorem crlfLines_line (h : 10 ∉ line) (s : Bytes) :
    crlfLines false (line ++ 10 :: s) = line ++ dueCr line ++ 10 :: crlfLines false s := by
  rw [crlfLines_append h, crlfLines, dueCr]
  cases hlast : line.getLast? with
  | none => simp
  | some b =>
    by_cases hb : b = 13
    · simp [hb]
    · simp [hb]

/-- A line with the `CR` that is due is one without, and both characters. -/
theorem exists_body (h : 10 ∉ line) :
    ∃ body, 10 ∉ body ∧ line ++ dueCr line = body ++ [13] ∧
      dot line ++ dueCr line = dot body ++ [13] := by
  unfold dueCr
  by_cases hlast : line.getLast? = some 13
  · obtain ⟨body, rfl⟩ := List.getLast?_eq_some_iff.1 hlast
    rw [if_pos hlast, List.append_nil, List.append_nil]
    refine ⟨body, fun hmem => h (List.mem_append_left _ hmem), rfl, ?_⟩
    cases body with
    | nil => rfl
    | cons b body => exact dot_append (by simp) [13]
  · rw [if_neg hlast]
    exact ⟨line, h, rfl, rfl⟩

/-! ### The loop -/

/-- What follows the last byte of the message. -/
def closing (start previousCr : Bool) : Bytes :=
  (if start then [] else (if previousCr then [] else [13]) ++ [10]) ++ [46, 13, 10]

/-- The flags of the loop within a line. -/
def startOf (line : Bytes) : Bool := decide (line = [])

/-- The line ends in a return. -/
def previousCrOf (line : Bytes) : Bool := decide (line.getLast? = some 13)

/-- The loop and what follows it. -/
def encodeFrom (line s : Bytes) : Bytes :=
  let r := dotBytes (startOf line) (previousCrOf line) s
  r.1 ++ closing r.2.1 r.2.2

theorem dotEncode_eq (h : raw ≠ []) : dotEncode raw = encodeFrom [] raw := by
  have hloop : encodeFrom [] raw = (dotBytes true false raw).1 ++
      closing (dotBytes true false raw).2.1 (dotBytes true false raw).2.2 := by
    simp [encodeFrom, startOf, previousCrOf]
  rw [hloop]
  unfold dotEncode closing
  generalize dotBytes true false raw = r
  obtain ⟨encoded, start, previousCr⟩ := r
  cases start with
  | true => simp [h]
  | false => simp

theorem encodeFrom_nil (line : Bytes) :
    encodeFrom line [] = (if line = [] then [] else dueCr line ++ [10]) ++ [46, 13, 10] := by
  unfold encodeFrom dotBytes closing startOf previousCrOf dueCr
  by_cases h : line = []
  · simp [h]
  · simp [h]

theorem encodeFrom_newline (line s : Bytes) :
    encodeFrom line (10 :: s) = dueCr line ++ 10 :: encodeFrom [] s := by
  unfold encodeFrom dueCr
  rw [dotBytes]
  by_cases hlast : line.getLast? = some 13
  · simp [startOf, previousCrOf, hlast]
  · simp [startOf, previousCrOf, hlast]

theorem encodeFrom_cons (line s : Bytes) {b : UInt8} (h : b ≠ 10) :
    dot line ++ encodeFrom line (b :: s) = dot (line ++ [b]) ++ encodeFrom (line ++ [b]) s := by
  have hflags : startOf (line ++ [b]) = decide (b = 10) ∧
      previousCrOf (line ++ [b]) = decide (b = 13) := by
    simp [startOf, previousCrOf, h]
  unfold encodeFrom
  rw [dotBytes, hflags.1, hflags.2]
  cases line with
  | nil =>
    by_cases hb : b = 46
    · simp [dot, startOf, hb]
    · simp [dot, startOf, hb, h]
  | cons c line =>
    rw [dot_append (by simp)]
    simp [startOf, h]

/-- The text with a line end after its last line, if there is one. -/
def endLast (s : Bytes) : Bytes := if s = [] then [] else endLine s

theorem endLast_cons (b : UInt8) (s : Bytes) :
    endLast (b :: s) = if s = [] ∧ b ≠ 10 then [b, 10] else b :: endLast s := by
  unfold endLast endLine
  cases s with
  | nil =>
    by_cases hb : b = 10
    · simp [hb]
    · simp [hb]
  | cons c s =>
    by_cases hlast : (c :: s).getLast? = some 10
    · simp [List.getLast?_cons_cons, hlast]
    · simp [List.getLast?_cons_cons, hlast]

/-- The invariant of the loop: in a line of which so much has gone out, the receiver reads the line,
the rest of the text and a last line end. -/
theorem readData_encodeFrom (h : 10 ∉ line) (s rest : Bytes) :
    readData (dot line ++ encodeFrom line s ++ rest) =
      some (crlfLines false (endLast (line ++ s)), rest) := by
  induction s generalizing line with
  | nil =>
    rw [encodeFrom_nil, List.append_nil]
    by_cases hline : line = []
    · subst hline
      exact readData_stop rest
    · have hlast : line.getLast? ≠ some 10 := fun hlast => h (List.mem_of_getLast? hlast)
      obtain ⟨body, hbody, htext, hdot⟩ := exists_body h
      have hwire : dot line ++ (dueCr line ++ [10] ++ [46, 13, 10]) ++ rest =
          dot body ++ 13 :: 10 :: (46 :: 13 :: 10 :: rest) := by
        rw [← List.append_assoc, ← List.append_assoc, hdot]
        simp
      rw [if_neg hline, hwire, readData_dot hbody, readData_stop, endLast, if_neg hline, endLine,
        if_neg hlast, crlfLines_line h, htext, crlfLines]
      simp
  | cons b s ih =>
    by_cases hb : b = 10
    · subst hb
      obtain ⟨body, hbody, htext, hdot⟩ := exists_body h
      have hwire : dot line ++ encodeFrom line (10 :: s) ++ rest =
          dot body ++ 13 :: 10 :: (dot [] ++ encodeFrom [] s ++ rest) := by
        rw [encodeFrom_newline, ← List.append_assoc, hdot]
        simp [dot]
      have hend : endLast (line ++ 10 :: s) = line ++ 10 :: endLast s := by
        clear ih hwire htext hdot
        induction line with
        | nil =>
          rw [List.nil_append, endLast_cons, if_neg fun hc => hc.2 rfl]
          rfl
        | cons c line ihl =>
          rw [List.mem_cons, not_or] at h
          rw [List.cons_append, endLast_cons, if_neg (by simp), ihl h.2]
          rfl
      rw [hwire, readData_dot hbody, ih (by simp), hend, crlfLines_line h, htext]
      simp
    · rw [encodeFrom_cons line s hb, ih (by
          rw [List.mem_append, not_or]
          exact ⟨h, by simpa using Ne.symm hb⟩), List.append_assoc]
      rfl

/-- What a receiver reads of the message, whatever follows it. -/
theorem readData_dotEncode (raw rest : Bytes) :
    readData (dotEncode raw ++ rest) = some (canonical raw, rest) := by
  have hnil : (10 : UInt8) ∉ [] := List.not_mem_nil
  by_cases h : raw = []
  · subst h
    change readData (dot [] ++ 13 :: 10 :: (46 :: 13 :: 10 :: rest)) = _
    rw [readData_dot hnil, readData_stop]
    rfl
  · have hloop := readData_encodeFrom hnil raw rest
    rw [List.nil_append, endLast, if_neg h] at hloop
    rw [dotEncode_eq h]
    exact hloop

/-! ### The transaction in three parts -/

/-- The sender and the recipients. -/
def envelope (sender : String) (extensions recipients : List String) : Talk String Unit := do
  ofExcept (validateLine sender)
  let _ ← command
    (mailLine sender (extensions.contains "8BITMIME") (extensions.contains "SMTPUTF8")) 250
  recipients.forM fun recipient => do
    ofExcept (validateLine recipient)
    let _ ← command (rcptLine recipient) 25
    pure ()

/-- All that comes before `DATA`. -/
def beforeData (net : Network) (cfg : SmtpConfig) (recipients : Option (List String)) :
    Talk String Unit := do
  let recipients ← ofExcept (validate cfg recipients)
  let extensions ← openSession net cfg
  presentCredentials cfg
  envelope cfg.sender extensions recipients

/-- `DATA` and the message, up to the reply to its end. -/
def handOver (raw : Bytes) : Talk String Unit := do
  let _ ← command "DATA" 354
  write id (dotEncode raw)
  let _ ← expect 250
  pure ()

/-- Say good-bye. -/
def takeLeave : Talk String Unit := do
  let _ ← command "QUIT" 221
  pure ()

theorem sendInner_eq (net : Network) (cfg : SmtpConfig) (recipients : Option (List String))
    (raw : Bytes) :
    sendInner net cfg recipients raw =
      beforeData net cfg recipients >>= fun _ => handOver raw >>= fun _ => takeLeave := by
  unfold sendInner beforeData deliver envelope handOver takeLeave
  simp only [bind_assoc, pure_bind]

/-! ### What goes before and after -/

theorem says_of_head {text : String} (h : text.toList.head? ≠ some 'D') :
    Utf8.encode text ≠ Utf8.encode "DATA" := by
  intro heq
  have htext := congrArg Utf8.decode heq
  rw [← String.ofList_toList (s := text), Utf8.decode_encode] at htext
  rw [show "DATA" = String.ofList ['D', 'A', 'T', 'A'] from rfl, Utf8.decode_encode] at htext
  rw [Option.some.inj htext] at h
  exact h rfl

/-- Not the command `DATA`. -/
def NotData (s : Bytes) : Prop := s ≠ Utf8.encode "DATA"

theorem notData_crlf : NotData crlf := by
  unfold NotData
  decide

theorem writes_openSession (net : Network) (cfg : SmtpConfig) :
    Writes NotData (openSession net cfg) := by
  have hhello : Writes NotData hello :=
    .of_saying (says_hello notData_crlf (says_of_head (by decide)) (says_of_head (by decide)))
  unfold openSession
  refine Writes.bind (.of_saying Says.ofExcept) fun _ => ?_
  refine Writes.bind (.of_saying (says_expect _)) fun _ => ?_
  apply Writes.bind hhello
  intro extensions
  split_ifs
  · unfold startTls
    split_ifs
    · refine Writes.bind
        (.of_saying (says_command notData_crlf (says_of_head (by decide)) _)) fun _ => ?_
      refine Writes.bind (.of_saying Says.ahead) fun buffer => ?_
      split_ifs
      · exact .of_saying Says.fail
      · refine Writes.bind (.of_saying Says.ofExcept) fun _ => ?_
        exact Writes.bind .protect fun _ => hhello
    · exact .of_saying Says.fail
  · exact .of_saying Says.pure

theorem says_presentCredentials_notData (cfg : SmtpConfig) :
    Says NotData (presentCredentials cfg) := by
  have hquit : NotData (Utf8.encode "QUIT") := says_of_head (by decide)
  have hauth (mechanism : String) (payload : Bytes) (challengeError : String) :
      Says NotData (authenticate mechanism payload challengeError) :=
    says_authenticate notData_crlf
      (says_of_head (by simp [authLine])) (says_of_head (by decide)) hquit _
  unfold presentCredentials
  cases cfg.oauth2 with
  | some token =>
    simp only
    split_ifs
    · exact Says.fail
    · exact hauth _ _ _
  | none =>
    simp only
    split_ifs
    · exact Says.bind (Says.attempt (says_command notData_crlf hquit _)) fun _ => Says.fail
    · exact hauth _ _ _
    · exact Says.pure

theorem says_envelope (sender : String) (extensions recipients : List String) :
    Says NotData (envelope sender extensions recipients) := by
  apply Says.bind Says.ofExcept
  intro _
  apply Says.bind (says_command notData_crlf (says_of_head (by simp [mailLine])) _)
  intro _
  apply Says.forM
  intro recipient _
  apply Says.bind Says.ofExcept
  intro _
  exact Says.bind (says_command notData_crlf (says_of_head (by simp [rcptLine])) _)
    fun _ => Says.pure

theorem writes_beforeData (net : Network) (cfg : SmtpConfig) (recipients : Option (List String)) :
    Writes NotData (beforeData net cfg recipients) := by
  refine Writes.bind (.of_saying Says.ofExcept) fun list => ?_
  refine Writes.bind (writes_openSession net cfg) fun extensions => ?_
  exact Writes.bind (.of_saying (says_presentCredentials_notData cfg)) fun _ =>
    .of_saying (says_envelope _ _ _)

/-- A reply is read without a word. -/
theorem expect_silent (expected : ℕ) (c : Conn) :
    (expect expected c).2 = [] ∧ (expect expected c).1.2.broken = c.broken := by
  obtain ⟨hstatus, hlog⟩ := says_expect (B := fun _ => False) expected c
  refine ⟨List.eq_nil_iff_forall_not_mem.2 fun e he => (hlog e he).2, ?_⟩
  exact congrArg (·.2.1) hstatus

theorem command_log {text : String} (hvalid : validateLine text = .ok ()) (expected : ℕ) {c : Conn}
    (h : c.broken = none) :
    (command text expected c).2.map Prod.snd = [Utf8.encode text, crlf] ∧
      (command text expected c).1.2.broken = none := by
  unfold command
  rw [hvalid, ofExcept_bind, write_bind h, write_bind h]
  obtain ⟨hlog, hbroken⟩ := expect_silent expected c
  exact ⟨by simp [hlog], hbroken.trans h⟩

theorem command_broken (text : String) (expected : ℕ) {c : Conn} (h : c.broken ≠ none) :
    (command text expected c).2 = [] ∧ ∃ error, (command text expected c).1 = (.error error, c) := by
  obtain ⟨failure, hfailure⟩ := Option.ne_none_iff_exists'.1 h
  unfold command
  cases validateLine text with
  | error error => exact ⟨rfl, error, rfl⟩
  | ok u =>
    have hwrite : write id (Utf8.encode text) c = ((.error failure, c), []) := by
      rw [write, hfailure]
      rfl
    rw [ofExcept_bind, run_bind, hwrite]
    exact ⟨rfl, failure, rfl⟩

/-- What is written from `DATA` on: the message once, and behind it only `QUIT`. -/
theorem handOver_log (raw : Bytes) (c : Conn) :
    let texts := ((handOver raw >>= fun _ => takeLeave) c).2.map Prod.snd
    texts = [] ∨ texts = [Utf8.encode "DATA", crlf] ∨
      ∃ later, (later = [] ∨ later = [Utf8.encode "QUIT", crlf]) ∧
        texts = Utf8.encode "DATA" :: crlf :: dotEncode raw :: later := by
  intro texts
  have hsplit : (handOver raw >>= fun _ => takeLeave) = command "DATA" 354 >>= fun _ =>
      write id (dotEncode raw) >>= fun _ => expect 250 >>= fun _ => takeLeave := by
    unfold handOver
    simp only [bind_assoc, pure_bind]
  by_cases hbroken : c.broken = none
  · have hdata : validateLine "DATA" = .ok () := rfl
    obtain ⟨hlog, hstays⟩ := command_log hdata 354 hbroken
    have htexts : texts = ((command "DATA" 354 >>= fun _ => write id (dotEncode raw) >>= fun _ =>
        expect 250 >>= fun _ => takeLeave) c).2.map Prod.snd := by rw [← hsplit]
    rw [run_bind] at htexts
    generalize command "DATA" 354 c = run at hlog hstays htexts
    obtain ⟨⟨r, c₁⟩, log⟩ := run
    cases r with
    | error error => exact Or.inr (Or.inl (htexts.trans hlog))
    | ok message =>
      refine Or.inr (Or.inr ?_)
      simp only [write_bind hstays, List.map_append, List.map_cons, hlog] at htexts
      obtain ⟨hsilent, hwhole⟩ := expect_silent 250 c₁
      rw [run_bind] at htexts
      generalize expect 250 c₁ = run at hsilent hwhole htexts
      obtain ⟨⟨r, c₂⟩, log₂⟩ := run
      simp only at hsilent
      subst hsilent
      cases r with
      | error error => exact ⟨[], Or.inl rfl, htexts⟩
      | ok message =>
        have hline : validateLine "QUIT" = .ok () := rfl
        obtain ⟨hquit, -⟩ := command_log hline 221 (hwhole.trans hstays)
        refine ⟨[Utf8.encode "QUIT", crlf], Or.inr rfl, htexts.trans ?_⟩
        have hleave : (takeLeave c₂).2 = (command "QUIT" 221 c₂).2 := by
          unfold takeLeave
          rw [run_bind]
          generalize command "QUIT" 221 c₂ = run
          obtain ⟨⟨r, c₃⟩, log₃⟩ := run
          cases r with
          | error error => rfl
          | ok message => exact List.append_nil log₃
        simp only [List.nil_append, hleave, hquit]
        rfl
  · obtain ⟨hlog, error, hrun⟩ := command_broken "DATA" 354 hbroken
    left
    change ((handOver raw >>= fun _ => takeLeave) c).2.map Prod.snd = []
    rw [hsplit, run_bind]
    generalize command "DATA" 354 c = run at hlog hrun
    obtain ⟨⟨r, c₁⟩, log⟩ := run
    cases hrun
    simp only at hlog
    simp [hlog]

/-- A receiver reads the message in its canonical form and nothing behind it; no shorter part of what
is written ends the data; and the message is written once, after `DATA`, with only `QUIT` behind it. -/
theorem data_transparent (net : Network) (cfg : SmtpConfig) (recipients : Option (List String))
    (raw : Bytes) (c : Conn) :
    (∀ rest, readData (dotEncode raw ++ rest) = some (canonical raw, rest)) ∧
    (∀ part, part <+: dotEncode raw → part ≠ dotEncode raw → readData part = none) ∧
    ∃ before after, (send net cfg recipients raw c).2.map Prod.snd = before ++ after ∧
      Utf8.encode "DATA" ∉ before ∧
      (after = [] ∨ after = [Utf8.encode "DATA", crlf] ∨
        ∃ later, (later = [] ∨ later = [Utf8.encode "QUIT", crlf]) ∧
          after = Utf8.encode "DATA" :: crlf :: dotEncode raw :: later) := by
  refine ⟨readData_dotEncode raw, fun part hprefix hne => ?_, ?_⟩
  · have hwhole := readData_dotEncode raw []
    rw [List.append_nil] at hwhole
    exact readData_of_prefix hwhole hprefix hne
  · rw [send_log, sendInner_eq, run_bind]
    have hbefore := writes_beforeData net cfg recipients c
    generalize beforeData net cfg recipients c = run at hbefore
    obtain ⟨⟨r, c₁⟩, log⟩ := run
    have hnot : Utf8.encode "DATA" ∉ log.map Prod.snd := by
      intro hmem
      obtain ⟨e, he, heq⟩ := List.mem_map.1 hmem
      exact hbefore e he heq
    cases r with
    | error error => exact ⟨log.map Prod.snd, [], by simp, hnot, Or.inl rfl⟩
    | ok u =>
      exact ⟨log.map Prod.snd, _, List.map_append .., hnot, handOver_log raw c₁⟩

end EraseMe.Email.Smtp
