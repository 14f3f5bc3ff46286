import EraseMe.Email.Awaiting

/-!
# Which responses of an IMAP server are read to an end

The server closes the stream after some bytes.  Reading the answer to `FETCH` returns, whatever the
bytes are.  The other readers return exactly when a line is marked with the tag or is no text
(`reading_ends_iff`); after the last such line they read empty lines for ever.
-/

namespace EraseMe.Email.Imap

open Wire Wire.Talk

/-! ### The readers of responses -/

/-- Read what `EXAMINE` answers. -/
def readExamineResponse (tag : ℕ) : Talk Failure ℕ := do
  match ← repeatedly (round (examineLine tag)) none with
  | some uidValidity => pure uidValidity
  | none => fail (imapFailure "folder select failed: no UIDVALIDITY")

/-- Read what `SEARCH` answers. -/
def readSearchResponse (tag : ℕ) : Talk Failure (List ℕ) :=
  repeatedly (round (searchLine tag)) []

/-- Read what `FETCH` answers. -/
def readFetchResponse (tag : ℕ) : Talk Failure (List FetchedMessage) :=
  repeatedly (fetchResponse tag) []

/-! ### The lines of a stream -/

/-- The lines of a stream with their ends; the last one may have none. -/
def streamLines : Bytes → List Bytes
  | [] => []
  | b :: s =>
      if b = 10 then [10] :: streamLines s
      else match streamLines s with
        | [] => [[b]]
        | line :: lines => (b :: line) :: lines

theorem streamLines_eq {s : Bytes} (h : s ≠ []) :
    streamLines s = upTo none s :: streamLines (dropLine s) := by
  induction s with
  | nil => exact absurd rfl h
  | cons b s ih =>
    by_cases hb : b = 10
    · simp [streamLines, upTo, dropLine, hb]
    · by_cases hs : s = []
      · simp [streamLines, upTo, dropLine, hb, hs]
      · have hdrop : dropLine (b :: s) = dropLine s := by
          simp [dropLine, upTo, hb]
        rw [streamLines, if_neg hb, ih hs, hdrop]
        simp [upTo, hb]

/-- What ends a wait for a mark. -/
def Answers (mark : List Char) (line : Bytes) : Prop :=
  Utf8.decode line = none ∨ octets mark <+: line

instance (mark : List Char) (line : Bytes) : Decidable (Answers mark line) :=
  inferInstanceAs (Decidable (_ ∨ _))

theorem not_answers_iff {mark : List Char} (hmark : IsMark mark) (line : Bytes) :
    ¬ Answers mark line ↔ ∃ text, lineText line = .ok text ∧ ¬ mark <+: text := by
  unfold Answers
  cases hdecode : Utf8.decode line with
  | none => simp [lineText, hdecode]
  | some text =>
    have htext : lineText line = .ok (Text.trimLineEnd text) := by simp [lineText, hdecode]
    simp [htext, prefix_lineText hmark htext]

section Loop

variable {α β : Type} {mark : List Char} {answer : α → List Char → Talk Failure (α ⊕ β)}
  {c : Conn}

/-- Without an answer no number of rounds is enough. -/
theorem rounds_diverged (hw : Awaits mark answer) (hne : mark ≠ []) (hbroken : c.broken = none)
    (hending : c.reader.ending = none)
    (h : ∀ line ∈ streamLines c.reader.bytes, ¬ Answers mark line)
    (fuel : ℕ) (a : α) : (rounds answer fuel a c).1.1 = .error .diverged := by
  induction fuel generalizing a c with
  | zero => rfl
  | succ fuel ih =>
    -- at the end of the stream every further read is an empty line, which carries no mark
    by_cases hbytes : c.reader.bytes = []
    · exact rounds_end hw hne hbroken hbytes hending _ a
    rw [streamLines_eq hbytes, List.forall_mem_cons] at h
    obtain ⟨text, htext, hmark⟩ := (not_answers_iff hw.isMark _).1 h.1
    obtain ⟨a', reader, hrest, hending', hrun⟩ :=
      rounds_skip hw hbroken (.inl hending) htext hmark a
    rw [hrun]
    rw [← hrest] at h
    exact ih (c := { c with reader }) hbroken (hending'.trans hending) h.2 a'

/-- With an answer, as many rounds as there are bytes are enough. -/
theorem rounds_ne_diverged (hw : Awaits mark answer) (hbroken : c.broken = none)
    (hending : c.reader.ending = none) (h : ∃ line ∈ streamLines c.reader.bytes, Answers mark line)
    {fuel : ℕ} (hfuel : c.reader.bytes.length < fuel) (a : α) :
    (rounds answer fuel a c).1.1 ≠ .error .diverged := by
  induction fuel generalizing a c with
  | zero => omega
  | succ fuel ih =>
    have hbytes : c.reader.bytes ≠ [] := by
      intro hbytes
      rw [hbytes] at h
      simp [streamLines] at h
    rw [streamLines_eq hbytes, List.exists_mem_cons_iff] at h
    by_cases hfirst : Answers mark (upTo none c.reader.bytes)
    · refine rounds_answer hw (.inl hending) (fun text htext => ?_) fuel a
      by_contra hmark
      exact (not_answers_iff hw.isMark _).2 ⟨text, htext, hmark⟩ hfirst
    · obtain ⟨text, htext, hmark⟩ := (not_answers_iff hw.isMark _).1 hfirst
      obtain ⟨a', reader, hrest, hending', hrun⟩ :=
        rounds_skip hw hbroken (.inl hending) htext hmark a
      rw [hrun]
      -- a line that is skipped took bytes, so that the rounds left are still enough
      have hlt := length_dropLine_lt hbytes
      refine ih (c := { c with reader }) hbroken (hending'.trans hending) ?_ ?_ a'
      · show ∃ line ∈ streamLines reader.bytes, _
        rw [hrest]
        exact h.resolve_left hfirst
      · show reader.bytes.length < fuel
        rw [hrest]
        omega

end Loop

/-! ### The answer to a fetch -/

theorem readExact_length_le (n : ℕ) (r : Reader) :
    (r.readExact n).2.bytes.length ≤ r.bytes.length := by
  obtain ⟨-, hrest⟩ := takePieces_spec n r.buffer r.pieces
  have hbytes : (r.readExact n).2.bytes =
      (takePieces n r.buffer r.pieces).2.1 ++ (takePieces n r.buffer r.pieces).2.2.flatten := by
    unfold Reader.readExact
    rcases takePieces n r.buffer r.pieces with ⟨_ | taken, buffer, pieces⟩
    · rfl
    · rfl
  rw [hbytes, hrest, Reader.bytes]
  split_ifs
  · simp
  · simp

theorem discard_length_le (fuel n : ℕ) (r : Reader) :
    (discard fuel n r).bytes.length ≤ r.bytes.length := by
  induction fuel generalizing n r with
  | zero => exact le_rfl
  | succ fuel ih =>
    unfold discard
    split_ifs
    · exact le_rfl
    · have hpart := readExact_length_le (min n 1024) r
      generalize r.readExact (min n 1024) = run at hpart
      obtain ⟨error | part, r'⟩ := run
      · exact hpart
      · exact (ih _ r').trans hpart

theorem run_boundedBody (len : ℕ) (c : Conn) :
    (receive (boundedBody len) c).1.1 ≠ .error .diverged ∧
      (receive (boundedBody len) c).1.2.reader.bytes.length ≤ c.reader.bytes.length := by
  unfold receive boundedBody
  split_ifs
  · exact ⟨by simp [fetchFailure, imapFailure], discard_length_le len len c.reader⟩
  · have hbody := readExact_length_le len c.reader
    generalize c.reader.readExact len = run at hbody
    obtain ⟨error | body, r⟩ := run
    · exact ⟨by simp, hbody⟩
    · exact ⟨by simp, hbody⟩

/-- A line that is read was there. -/
theorem run_readOctets_cases (c : Conn) :
    (readOctets c).1.1 ≠ .error .diverged ∧
      ∀ line d, (readOctets c).1 = (.ok line, d) →
        d.reader.bytes.length + line.length = c.reader.bytes.length := by
  obtain ⟨hresult, hbytes, -⟩ := readUntil_eq none c.reader
  unfold readOctets receive octetsOf
  generalize c.reader.readUntil none = run at hresult hbytes
  obtain ⟨error | line, r⟩ := run
  · exact ⟨by simp [readFailure], by simp⟩
  · refine ⟨by simp, fun line' d h => ?_⟩
    cases h
    simp only at hresult hbytes
    show r.bytes.length + line.length = _
    rw [hbytes]
    unfold readBytes at hresult ⊢
    split_ifs at hresult ⊢
    · cases hresult
      rw [List.length_drop, Nat.sub_add_cancel (length_upTo_le _ _)]
    -- no line end: the rest of the stream is the line
    · cases hending : c.reader.ending with
      | none =>
        rw [hending] at hresult
        cases hresult
        simp
      | some error =>
        rw [hending] at hresult
        cases hresult

/-- A line of a response, and the literal after it, take bytes. -/
theorem run_responsePart (assembled : Bytes) (c : Conn) :
    (responsePart assembled c).1.1 ≠ .error .diverged ∧
      ∀ x d, (responsePart assembled c).1 = (.ok x, d) →
        d.reader.bytes.length < c.reader.bytes.length := by
  obtain ⟨hne, htakes⟩ := run_readOctets_cases c
  unfold responsePart
  rcases hrun : (readOctets c).1 with ⟨e | line, c'⟩
  · rw [run_bind_error hrun]
    rw [hrun] at hne
    refine ⟨?_, by simp⟩
    rintro ⟨⟩
    exact hne rfl
  have hline := htakes line c' hrun
  rw [run_bind_ok hrun]
  by_cases hempty : line = []
  · rw [if_pos hempty]
    exact ⟨by simp [fail, fetchFailure, imapFailure], by simp [fail]⟩
  have hlt : c'.reader.bytes.length < c.reader.bytes.length := by
    have hpos := List.length_pos_iff.2 hempty
    omega
  rw [if_neg hempty]
  cases literalLength (Text.trimLineEnd (Utf8.lossy line)) with
  | none =>
    refine ⟨by rintro ⟨⟩, fun x d h => ?_⟩
    cases h
    exact hlt
  | some len =>
    obtain ⟨hne', hle⟩ := run_boundedBody len c'
    simp only
    rcases hbody : (receive (boundedBody len) c').1 with ⟨e | literal, d⟩
    · rw [run_bind_error hbody]
      rw [hbody] at hne'
      refine ⟨?_, by simp⟩
      rintro ⟨⟩
      exact hne' rfl
    · rw [run_bind_ok hbody]
      rw [hbody] at hle
      refine ⟨by rintro ⟨⟩, fun x d' h => ?_⟩
      cases h
      exact hle.trans_lt hlt

theorem takes_responsePart (assembled : Bytes) : Takes (responsePart assembled) :=
  fun c => (run_responsePart assembled c).2

theorem readResponseBytes_ne_diverged (c : Conn) :
    (readResponseBytes c).1.1 ≠ .error .diverged :=
  loop_ne_error (fun a c => (run_responsePart a c).1) takes_responsePart (Nat.lt_succ_self _) []

theorem takes_readResponseBytes : Takes readResponseBytes :=
  fun c => Takes.loop takes_responsePart (c.reader.bytes.length + 1) [] c

theorem fetchedOf_ne_diverged (response : Bytes) (head : List Char) :
    fetchedOf response head ≠ .error .diverged := by
  unfold fetchedOf
  cases extractLiteral response "BODY[HEADER]" with
  | none => simp [fetchFailure, imapFailure]
  | some header =>
    cases extractLiteral response "BODY[TEXT]" with
    | none => simp [fetchFailure, imapFailure]
    | some body => simp

/-- What is done with a response takes no bytes, and comes to an end. -/
theorem run_fetchResponse (tag : ℕ) (fetched : List FetchedMessage) (c : Conn) :
    (fetchResponse tag fetched c).1.1 ≠ .error .diverged ∧
      ∀ x d, (fetchResponse tag fetched c).1 = (.ok x, d) →
        d.reader.bytes.length < c.reader.bytes.length := by
  unfold fetchResponse
  have hne := readResponseBytes_ne_diverged c
  rcases hrun : (readResponseBytes c).1 with ⟨e | response, c'⟩
  · rw [run_bind_error hrun]
    rw [hrun] at hne
    refine ⟨?_, by simp⟩
    rintro ⟨⟩
    exact hne rfl
  have hlt := takes_readResponseBytes c response c' hrun
  rw [run_bind_ok hrun]
  split_ifs
  · have hmessage := fetchedOf_ne_diverged response (Text.trimLineEnd (Utf8.lossy response))
    cases hfetched : fetchedOf response (Text.trimLineEnd (Utf8.lossy response)) with
    | error e =>
      rw [hfetched] at hmessage
      refine ⟨?_, fun x d h => by cases h⟩
      intro h
      cases h
      exact hmessage rfl
    | ok message =>
      refine ⟨by rintro ⟨⟩, fun x d h => ?_⟩
      cases h
      exact hlt
  · cases noWords (Text.trimLineEnd (Utf8.lossy response)) with
    | some words => exact ⟨by simp [fail, fetchFailure, imapFailure], by simp [fail]⟩
    | none =>
      refine ⟨by rintro ⟨⟩, fun x d h => ?_⟩
      cases h
      exact hlt
  · refine ⟨by rintro ⟨⟩, fun x d h => ?_⟩
    cases h
    exact hlt

/-- Reading the answer to `FETCH` returns, whatever the server sends. -/
theorem readFetchResponse_ne_diverged (tag : ℕ) (c : Conn) :
    (readFetchResponse tag c).1.1 ≠ .error .diverged :=
  loop_ne_error (fun a c => (run_fetchResponse tag a c).1)
    (fun a c => (run_fetchResponse tag a c).2) (Nat.lt_succ_self _) []

/-! ### All six -/

/-- A function that reads the response to a command. -/
inductive Reading
  | capability
  | login (username password : String)
  | authenticateXoauth2 (username token : String)
  | examine
  | search
  | fetch

namespace Reading

/-- Forget what is returned. -/
def forget {α : Type} (m : Talk Failure α) : Talk Failure Unit := do
  let _ ← m
  pure ()

/-- Run the function. -/
def run (tag : ℕ) : Reading → Talk Failure Unit
  | capability => forget (Imap.capability tag)
  | login username password => Imap.login tag username password
  | authenticateXoauth2 username token => Imap.authenticateXoauth2 tag username token
  | examine => forget (readExamineResponse tag)
  | search => forget (readSearchResponse tag)
  | fetch => forget (readFetchResponse tag)

/-- The same with a number of rounds for its loop. -/
def runFor (tag fuel : ℕ) : Reading → Talk Failure Unit
  | capability => forget do
      writeCommand tag "CAPABILITY"
      rounds (capabilityLine tag) fuel []
  | login username password => do
      writeCommand tag ("LOGIN \"" ++ username ++ "\" \"" ++ password ++ "\"")
      rounds (loginLine tag) fuel ()
  | authenticateXoauth2 username token => do
      writeCommand tag ("AUTHENTICATE XOAUTH2 " ++ String.ofList
        (Base64.encode Base64.standard true (Utf8.encode (xoauth2Payload username token))))
      rounds (xoauth2Line tag) fuel ()
  | examine => forget (rounds (examineLine tag) fuel none)
  | search => forget (rounds (searchLine tag) fuel [])
  | fetch => forget (loop .diverged (fetchResponse tag) fuel [])

/-- What the function waits for. -/
def mark (tag : ℕ) : Reading → Option (List Char)
  | capability | login _ _ | authenticateXoauth2 _ _ => some (tagOf tag ++ [' '])
  | examine | search => some (tagOf tag)
  | fetch => none

/-- The function writes the command itself. -/
def writes : Reading → Bool
  | capability | login _ _ | authenticateXoauth2 _ _ => true
  | examine | search | fetch => false

/-- The command cannot be written, or a line of the stream is an answer; `FETCH` needs neither. -/
def Ends (tag : ℕ) (c : Conn) (r : Reading) : Prop :=
  ∀ mark ∈ r.mark tag, r.writes = true ∧ c.broken ≠ none ∨
    ∃ line ∈ streamLines c.reader.bytes, Answers mark line

theorem forget_diverged {α : Type} {m : Talk Failure α} {c : Conn} :
    (forget m c).1.1 = .error .diverged ↔ (m c).1.1 = .error .diverged := by
  unfold forget
  rw [run_bind]
  rcases m c with ⟨⟨e | a, c'⟩, log⟩
  · simp only
    constructor
    · rintro ⟨⟩
      rfl
    · rintro ⟨⟩
      rfl
  · exact ⟨nofun, nofun⟩

end Reading

/-- A connection on which the server has closed its stream. -/
def closed (c : Conn) : Conn := { c with reader := { c.reader with ending := none } }

section Waiting

variable {α β : Type} {tag : ℕ} {mark : List Char}
  {answer : α → List Char → Talk Failure (α ⊕ β)} {c : Conn}

/-- A loop that does not write does not depend on writes. -/
theorem rounds_broken {f : α → List Char → Except Failure (α ⊕ β)}
    (hanswer : ∀ a line, answer a line = ofExcept (f a line)) (broken : Option String) (fuel : ℕ)
    (a : α) (c : Conn) :
    (rounds answer fuel a { c with broken }).1.1 = (rounds answer fuel a c).1.1 := by
  induction fuel generalizing a c with
  | zero => rfl
  | succ fuel ih =>
    have hround : (round answer a { c with broken }).1 =
        ((round answer a c).1.1, { (round answer a c).1.2 with broken }) := by
      unfold round
      rw [run_bind, run_bind, readLine, receive, receive]
      simp only
      rcases lineOf c.reader with ⟨e | line, reader⟩
      · rfl
      · simp only [hanswer]
        rfl
    rcases hrun : (round answer a c).1 with ⟨e | a' | b, c'⟩
    all_goals rw [hrun] at hround
    · rw [rounds, loop_error hrun, loop_error hround]
    · rw [rounds, loop_inl hrun, loop_inl hround]
      exact ih a' c'
    · rw [rounds, loop_inr hrun, loop_inr hround]

/-- A wait on a closed stream ends exactly with an answer. -/
theorem repeatedly_ends_iff (hw : Awaits mark answer) (hne : mark ≠ []) (hbroken : c.broken = none)
    (hending : c.reader.ending = none) (a : α) :
    ((repeatedly (round answer) a c).1.1 ≠ .error .diverged ↔
        ∃ line ∈ streamLines c.reader.bytes, Answers mark line) ∧
      ((repeatedly (round answer) a c).1.1 = .error .diverged →
        ∀ fuel, (rounds answer fuel a c).1.1 = .error .diverged) := by
  rw [repeatedly_round]
  by_cases h : ∃ line ∈ streamLines c.reader.bytes, Answers mark line
  · have hends := rounds_ne_diverged hw hbroken hending h (Nat.lt_succ_self _) a
    exact ⟨iff_of_true hends h, fun hdiverged => absurd hdiverged hends⟩
  · have hlines : ∀ line ∈ streamLines c.reader.bytes, ¬ Answers mark line :=
      fun line hline hanswers => h ⟨line, hline, hanswers⟩
    have hdiverged := rounds_diverged hw hne hbroken hending hlines
    exact ⟨iff_of_false (not_not.2 (hdiverged _ a)) h, fun _ fuel => hdiverged fuel a⟩

/-- The same for a loop that does not write, whatever becomes of writes. -/
theorem repeatedly_ends_iff_of_silent {f : α → List Char → Except Failure (α ⊕ β)}
    (hanswer : ∀ a line, answer a line = ofExcept (f a line)) (hw : Awaits mark answer)
    (hne : mark ≠ []) (hending : c.reader.ending = none) (a : α) :
    ((repeatedly (round answer) a c).1.1 ≠ .error .diverged ↔
        ∃ line ∈ streamLines c.reader.bytes, Answers mark line) ∧
      ((repeatedly (round answer) a c).1.1 = .error .diverged →
        ∀ fuel, (rounds answer fuel a c).1.1 = .error .diverged) := by
  -- the loop is run on a connection that can be written to
  have h := repeatedly_ends_iff (c := { c with broken := none }) hw hne rfl hending a
  rw [repeatedly_round] at h ⊢
  simp only [rounds_broken hanswer] at h
  exact h

/-- A command that cannot be written fails. -/
theorem writeCommand_broken {text error : String} {m : Unit → Talk Failure α}
    (h : c.broken = some error) :
    ((writeCommand tag text >>= m) c).1.1 ≠ .error .diverged := by
  have hwrite : (writeCommand tag text c).1 =
      (.error (.message ("IMAP write failed: " ++ error)), c) := by
    rw [writeCommand, writeLine, write, h]
  rw [run_bind_error hwrite]
  simp

/-- A wait that comes after its command. -/
theorem command_ends_iff (tag : ℕ) (text : String) (hw : Awaits mark answer) (hne : mark ≠ [])
    (hending : c.reader.ending = none) (a : α) :
    (((writeCommand tag text >>= fun _ => repeatedly (round answer) a) c).1.1 ≠
          .error .diverged ↔
        c.broken ≠ none ∨ ∃ line ∈ streamLines c.reader.bytes, Answers mark line) ∧
      (((writeCommand tag text >>= fun _ => repeatedly (round answer) a) c).1.1 =
          .error .diverged →
        ∀ fuel, ((writeCommand tag text >>= fun _ => rounds answer fuel a) c).1.1 =
          .error .diverged) := by
  cases hbroken : c.broken with
  | some error =>
    have hends : ((writeCommand tag text >>= fun _ => repeatedly (round answer) a) c).1.1 ≠
        .error .diverged := writeCommand_broken hbroken
    exact ⟨iff_of_true hends (.inl nofun), fun hdiverged => absurd hdiverged hends⟩
  | none =>
    rw [writeCommand, writeLine, run_write_bind hbroken]
    simp only [run_write_bind hbroken, ne_eq, not_true_eq_false, false_or]
    exact repeatedly_ends_iff hw hne hbroken hending a

end Waiting

theorem examineLine_eq (tag : ℕ) (uidValidity : Option ℕ) (line : List Char) :
    ∃ r, examineLine tag uidValidity line = ofExcept r := by
  unfold examineLine
  simp only
  split_ifs
  · cases noWords line with
    | some words => exact ⟨.error _, rfl⟩
    | none => exact ⟨.ok _, rfl⟩
  · exact ⟨.ok _, rfl⟩

theorem searchLine_eq (tag : ℕ) (uids : List ℕ) (line : List Char) :
    ∃ r, searchLine tag uids line = ofExcept r := by
  unfold searchLine
  simp only
  generalize (if "* SEARCH".toList.isPrefixOf line then _ else uids) = uids
  split_ifs
  · cases noWords line with
    | some words => exact ⟨.error _, rfl⟩
    | none => exact ⟨.ok _, rfl⟩
  · exact ⟨.ok _, rfl⟩

theorem readExamineResponse_diverged {tag : ℕ} {c : Conn} :
    (readExamineResponse tag c).1.1 = .error .diverged ↔
      (repeatedly (round (examineLine tag)) none c).1.1 = .error .diverged := by
  unfold readExamineResponse
  rw [run_bind]
  rcases repeatedly (round (examineLine tag)) none c with ⟨⟨e | _ | uidValidity, c'⟩, log⟩
  · simp only
    constructor
    · rintro ⟨⟩
      rfl
    · rintro ⟨⟩
      rfl
  · exact ⟨by simp [fail, imapFailure], by rintro ⟨⟩⟩
  · exact ⟨by rintro ⟨⟩, by rintro ⟨⟩⟩

theorem tagOf_ne_nil (tag : ℕ) : tagOf tag ≠ [] := by simp [tagOf]

/-- On a stream that the server has closed, a reader returns exactly if it is that of `FETCH`, or a
line is marked with the tag or is no text, or its command cannot be written.  Otherwise no number of
rounds is enough. -/
theorem reading_ends_iff (r : Reading) (tag : ℕ) (c : Conn) :
    ((r.run tag (closed c)).1.1 ≠ .error .diverged ↔ r.Ends tag (closed c)) ∧
      ((r.run tag (closed c)).1.1 = .error .diverged →
        ∀ fuel, (r.runFor tag fuel (closed c)).1.1 = .error .diverged) := by
  have htag : tagOf tag ++ [' '] ≠ [] := by simp
  have hending : (closed c).reader.ending = none := rfl
  cases r with
  | capability =>
    have h := command_ends_iff tag "CAPABILITY" (awaits_capability tag) htag hending []
    simpa [Reading.run, Reading.runFor, Reading.Ends, Reading.forget_diverged, Reading.mark,
      Reading.writes, capability] using h
  | login username password =>
    have h := command_ends_iff tag ("LOGIN \"" ++ username ++ "\" \"" ++ password ++ "\"")
      (awaits_login tag) htag hending ()
    simpa [Reading.run, Reading.runFor, Reading.Ends, Reading.mark, Reading.writes, login] using h
  | authenticateXoauth2 username token =>
    have h := command_ends_iff tag ("AUTHENTICATE XOAUTH2 " ++ String.ofList
      (Base64.encode Base64.standard true (Utf8.encode (xoauth2Payload username token))))
      (awaits_xoauth2 tag) htag hending ()
    simpa [Reading.run, Reading.runFor, Reading.Ends, Reading.mark, Reading.writes,
      authenticateXoauth2] using h
  | examine =>
    choose f hf using examineLine_eq tag
    have h := repeatedly_ends_iff_of_silent hf (awaits_examine tag) (tagOf_ne_nil tag) hending none
    simpa [Reading.run, Reading.runFor, Reading.Ends, Reading.forget_diverged, Reading.mark,
      Reading.writes, readExamineResponse_diverged] using h
  | search =>
    choose f hf using searchLine_eq tag
    have h := repeatedly_ends_iff_of_silent hf (awaits_search tag) (tagOf_ne_nil tag) hending []
    simpa [Reading.run, Reading.runFor, Reading.Ends, Reading.forget_diverged, Reading.mark,
      Reading.writes, readSearchResponse] using h
  | fetch =>
    -- `read_response_bytes` fails at the end of the stream
    have h := readFetchResponse_ne_diverged tag (closed c)
    refine ⟨iff_of_true ?_ (by simp [Reading.Ends, Reading.mark]), fun hdiverged => ?_⟩
    · rwa [Reading.run, ne_eq, Reading.forget_diverged]
    · rw [Reading.run, Reading.forget_diverged] at hdiverged
      exact absurd hdiverged h

/-- A server that closes its stream at once is waited for without end. -/
theorem capability_never_returns :
    let c := closed ⟨⟨[], [], none⟩, none, none, false⟩
    (Reading.capability.run 1 c).1.1 = .error .diverged ∧
      ∀ fuel, (Reading.capability.runFor 1 fuel c).1.1 = .error .diverged := by
  intro c
  refine ⟨by decide, fun fuel => Reading.forget_diverged.2 ?_⟩
  rw [writeCommand, writeLine, run_write_bind rfl]
  refine rounds_diverged (awaits_capability 1) (by simp) rfl rfl (fun line hline => ?_) fuel []
  cases hline

end EraseMe.Email.Imap
