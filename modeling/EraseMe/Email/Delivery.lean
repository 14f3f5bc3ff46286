import EraseMe.Email.Framing
import EraseMe.Email.StartTls

/-!
# What the server accepted

`IsReply` says which bytes are a reply with a code, `Answers` that the bytes to come begin with
replies that meet given tests.  `Asks V tests m` is the specification of a part of the transaction:
it succeeds exactly when its lines can be sent (`V`) and the replies meet the tests; it then has
read these replies and no more.

The transaction does not end with the reply to the end of the data: `QUIT` wants its own reply, and
a message the server has accepted counts as failed without it (`send_reports_iff`).
-/

namespace EraseMe.Email.Smtp

open Wire Wire.Talk

variable {ending : Option String} {s line rest rest' : Bytes} {c c' : Conn} {code expected : ℕ}

/-! ### Replies as bytes -/

/-- A line as it is read: with its line feed, or the last of a stream that was closed. -/
structure IsLine (ending : Option String) (line rest : Bytes) : Prop where
  length_le : line.length ≤ 65536
  ended : (∃ body, 10 ∉ body ∧ line = body ++ [10]) ∨
    line ≠ [] ∧ 10 ∉ line ∧ rest = [] ∧ ending = none

/-- A line of a reply with its code; a blank after the code is the mark of the last line. -/
def HasHead (line : Bytes) (code : ℕ) (sep : Char) : Prop :=
  ∃ text, Utf8.decode line = some text ∧ replyHead text = some (code, sep)

/-- The bytes begin with a reply, `size` bytes of which came before, and go on with `rest`. -/
inductive IsReply (ending : Option String) (code : ℕ) : ℕ → Bytes → Bytes → Prop
  | last {size : ℕ} {line rest : Bytes} (hline : IsLine ending line rest)
      (hhead : HasHead line code ' ') (hsize : size + line.length ≤ 1048576) :
      IsReply ending code size (line ++ rest) rest
  | more {size : ℕ} {line rest rest' : Bytes} (hline : IsLine ending line rest)
      (hhead : HasHead line code '-') (hsize : size + line.length ≤ 1048576)
      (hreply : IsReply ending code (size + line.length) rest rest') :
      IsReply ending code size (line ++ rest) rest'

/-- The bytes begin with one reply for each test, and go on with `rest`. -/
def Answers (ending : Option String) : List (ℕ → Prop) → Bytes → Bytes → Prop
  | [], s, rest => s = rest
  | test :: tests, s, rest =>
      ∃ code s', test code ∧ IsReply ending code 0 s s' ∧ Answers ending tests s' rest

/-- The codes that are taken for the expected one. -/
def Meets (expected code : ℕ) : Prop := code = expected ∨ (expected < 100 ∧ code / 10 = expected)

theorem answers_append {tests tests' : List (ℕ → Prop)} :
    Answers ending (tests ++ tests') s rest ↔
      ∃ s', Answers ending tests s s' ∧ Answers ending tests' s' rest := by
  induction tests generalizing s with
  | nil => simp [Answers]
  | cons test tests ih =>
    simp only [List.cons_append, Answers, ih]
    constructor
    · rintro ⟨code, s₁, htest, hreply, s₂, h, h'⟩
      exact ⟨s₂, ⟨code, s₁, htest, hreply, h⟩, h'⟩
    · rintro ⟨s₂, ⟨code, s₁, htest, hreply, h⟩, h'⟩
      exact ⟨code, s₁, htest, hreply, s₂, h, h'⟩

theorem answers_singleton {test : ℕ → Prop} :
    Answers ending [test] s rest ↔ ∃ code, test code ∧ IsReply ending code 0 s rest := by
  simp only [Answers]
  constructor
  · rintro ⟨code, s', htest, hreply, rfl⟩
    exact ⟨code, htest, hreply⟩
  · rintro ⟨code, htest, hreply⟩
    exact ⟨code, rest, htest, hreply, rfl⟩

/-! ### Reading a line -/

theorem upTo_line {body : Bytes} (h : 10 ∉ body) {n : ℕ} (hn : body.length < n) (rest : Bytes) :
    upTo (some n) (body ++ 10 :: rest) = body ++ [10] := by
  induction body generalizing n with
  | nil =>
    have hne : (some n : Option ℕ) ≠ some 0 := by simp only [ne_eq, Option.some.injEq]; omega
    rw [List.nil_append, upTo, if_neg hne, if_pos rfl]
    rfl
  | cons b body ih =>
    rw [List.mem_cons, not_or] at h
    rw [List.length_cons] at hn
    have hne : (some n : Option ℕ) ≠ some 0 := by simp only [ne_eq, Option.some.injEq]; omega
    rw [List.cons_append, upTo, if_neg hne, if_neg (Ne.symm h.1), Option.map_some, ih h.2 (by omega)]
    rfl

/-- A line that did not reach the limit ends with its line feed. -/
theorem exists_body_of_upTo {n : ℕ} (hlen : (upTo (some n) s).length < n)
    (henough : enough (some n) s = true) :
    ∃ body rest, 10 ∉ body ∧ s = body ++ 10 :: rest ∧ upTo (some n) s = body ++ [10] := by
  induction s generalizing n with
  | nil =>
    have hn : n = 0 := by simpa [enough] using henough
    rw [hn] at hlen
    exact absurd hlen (Nat.not_lt_zero _)
  | cons b s ih =>
    have hne : (some n : Option ℕ) ≠ some 0 := by simp only [ne_eq, Option.some.injEq]; omega
    by_cases hb : b = 10
    · refine ⟨[], s, List.not_mem_nil, by rw [hb]; rfl, ?_⟩
      rw [upTo, if_neg hne, if_pos hb, hb]
      rfl
    · rw [upTo, if_neg hne, if_neg hb, Option.map_some, List.length_cons] at hlen
      have henough' : enough (some (n - 1)) s = true := by
        simp only [enough, Option.any_some, List.length_cons, List.mem_cons, Bool.or_eq_true,
          decide_eq_true_eq] at henough ⊢
        rcases henough with h | h | h
        · exact Or.inl (by omega)
        · exact absurd h.symm hb
        · exact Or.inr h
      obtain ⟨body, rest, hbody, rfl, hupTo⟩ := ih (by omega) henough'
      refine ⟨b :: body, rest, ?_, rfl, ?_⟩
      · rw [List.mem_cons, not_or]
        exact ⟨Ne.symm hb, hbody⟩
      · rw [upTo, if_neg hne, if_neg hb, Option.map_some, hupTo]
        rfl

/-- A line that is there is read. -/
theorem readBytes_isLine (h : IsLine ending line rest) :
    readBytes (some 65537) ending (line ++ rest) = (.ok line, rest) := by
  have hlen := h.length_le
  obtain ⟨body, hbody, rfl⟩ | ⟨hne, hline, rfl, rfl⟩ := h.ended
  · rw [List.length_append, List.length_singleton] at hlen
    have henough : enough (some 65537) (body ++ [10] ++ rest) = true := by simp [enough]
    unfold readBytes
    rw [if_pos henough, List.append_assoc, List.singleton_append, upTo_line hbody (by omega)]
    simp
  · have henough : enough (some 65537) (line ++ []) = false := by
      simp only [enough, Option.any_some, List.append_nil, hline, decide_false, Bool.or_false,
        decide_eq_false_iff_not]
      omega
    unfold readBytes
    rw [if_neg (by rw [henough]; simp), List.append_nil]

/-- What is read within the limit is a line. -/
theorem isLine_of_readBytes (h : readBytes (some 65537) ending s = (.ok line, rest))
    (hne : line ≠ []) (hlen : line.length ≤ 65536) :
    s = line ++ rest ∧ IsLine ending line rest := by
  unfold readBytes at h
  split_ifs at h with henough
  · obtain ⟨hline, hrest⟩ := Prod.mk.inj h
    have hline := Except.ok.inj hline
    subst hline
    obtain ⟨body, after, hbody, rfl, hupTo⟩ := exists_body_of_upTo (by omega) henough
    rw [hupTo] at hrest hlen ⊢
    refine ⟨?_, hlen, Or.inl ⟨body, hbody, rfl⟩⟩
    rw [← hrest]
    simp
  · cases ending with
    | some error => cases (Prod.mk.inj h).1
    | none =>
      obtain ⟨hline, rfl⟩ := Prod.mk.inj h
      have hline := Except.ok.inj hline
      subst hline
      rw [Bool.not_eq_true] at henough
      simp only [enough, Bool.or_eq_false_iff, decide_eq_false_iff_not] at henough
      exact ⟨(List.append_nil s).symm, hlen, Or.inr ⟨hne, henough.2, rfl, rfl⟩⟩

/-! ### Reading a reply -/

/-- Only bytes of the reader were used. -/
structure Stays (c c' : Conn) : Prop where
  status : c'.status = c.status
  ending : c'.reader.ending = c.reader.ending

theorem stays_refl (c : Conn) : Stays c c := ⟨rfl, rfl⟩

theorem Stays.trans {c'' : Conn} (h : Stays c c') (h' : Stays c' c'') : Stays c c'' :=
  ⟨h'.status.trans h.status, h'.ending.trans h.ending⟩

theorem Stays.broken (h : Stays c c') : c'.broken = c.broken := congrArg (·.2.1) h.status

/-- What a read of a line gives, by the bytes. -/
theorem readLine_run (c : Conn) :
    ∃ reader : Reader, reader.ending = c.reader.ending ∧
      reader.bytes = (readBytes (some 65537) c.reader.ending c.reader.bytes).2 ∧
      (receive (Reader.readLine (some 65537)) c : (Except String (ℕ × List Char) × Conn) × _).1 =
        (match (readBytes (some 65537) c.reader.ending c.reader.bytes).1 with
          | .ok line => match Utf8.decode line with
            | some text => .ok (line.length, text)
            | none => .error "stream did not contain valid UTF-8"
          | .error error => .error error, { c with reader }) := by
  obtain ⟨hresult, hbytes, hending⟩ := readUntil_eq (some 65537) c.reader
  refine ⟨(c.reader.readUntil (some 65537)).2, hending, hbytes, ?_⟩
  rw [← hresult]
  unfold receive Reader.readLine
  generalize c.reader.readUntil (some 65537) = run
  obtain ⟨r, reader⟩ := run
  cases r with
  | error error => rfl
  | ok line => rfl

theorem sep_of_replyHead {text : List Char} {sep : Char} (h : replyHead text = some (code, sep)) :
    sep = ' ' ∨ sep = '-' := by
  unfold replyHead at h
  split at h
  · split_ifs at h with hhead
    obtain ⟨number, -, heq⟩ := Option.map_eq_some_iff.1 h
    cases heq
    exact hhead.2.2.2
  · cases h

/-- A round on a line of a reply. -/
theorem replyLine_of_isLine {p : Partial} {sep : Char} (hbytes : c.reader.bytes = line ++ rest)
    (hline : IsLine c.reader.ending line rest) (hhead : HasHead line code sep)
    (hsize : p.size + line.length ≤ 1048576) (hcode : p.code.all (· = code) = true) :
    ∃ messages c', Stays c c' ∧ c'.reader.bytes = rest ∧ (replyLine p c).1 =
      (.ok (if sep = ' ' then .inr (code, List.intercalate ['\n'] messages)
        else .inl ⟨some code, messages, p.size + line.length⟩), c') := by
  obtain ⟨text, hdecode, hhead⟩ := hhead
  obtain ⟨reader, hending, hreader, hrun⟩ := readLine_run c
  rw [hbytes, readBytes_isLine hline] at hreader hrun
  simp only [hdecode] at hrun
  have hpos : line.length ≠ 0 := by
    obtain ⟨body, -, rfl⟩ | ⟨hne, -⟩ := hline.ended
    · simp
    · exact fun h => hne (List.length_eq_zero_iff.1 h)
  have hlen := hline.length_le
  have hsame : p.code.any (fun x => decide (x ≠ code)) = false := by
    cases hp : p.code with
    | none => rfl
    | some code' => simpa [hp] using hcode
  refine ⟨p.messages ++ [Text.trimLineEnd (text.drop 4)], { c with reader }, ⟨rfl, hending⟩, hreader,
    ?_⟩
  unfold replyLine
  rw [run_bind_ok hrun]
  simp only [if_neg hpos, if_neg (show ¬ (line.length > 65536 ∨ p.size + line.length > 1048576) by
    omega), hhead, hsame]
  by_cases hsep : sep = ' '
  · rw [if_pos hsep, if_pos hsep]
    rfl
  · rw [if_neg hsep, if_neg hsep]
    rfl

/-- What a round took is a line of a reply. -/
theorem isLine_of_replyLine {p : Partial} {r : Partial ⊕ (ℕ × List Char)}
    (h : (replyLine p c).1 = (.ok r, c')) :
    ∃ line code sep messages, c.reader.bytes = line ++ c'.reader.bytes ∧
      IsLine c.reader.ending line c'.reader.bytes ∧ HasHead line code sep ∧
      p.size + line.length ≤ 1048576 ∧ p.code.all (· = code) = true ∧ Stays c c' ∧
      r = if sep = ' ' then .inr (code, List.intercalate ['\n'] messages)
        else .inl ⟨some code, messages, p.size + line.length⟩ := by
  obtain ⟨reader, hending, hreader, hrun⟩ := readLine_run c
  unfold replyLine at h
  cases hbytes : readBytes (some 65537) c.reader.ending c.reader.bytes with
  | mk result rest =>
    rw [hbytes] at hreader hrun
    cases result with
    | error error =>
      rw [run_bind_error hrun] at h
      cases h
    | ok line =>
      cases hdecode : Utf8.decode line with
      | none =>
        simp only [hdecode] at hrun
        rw [run_bind_error hrun] at h
        cases h
      | some text =>
        simp only [hdecode] at hrun
        rw [run_bind_ok hrun] at h
        simp only at h
        split_ifs at h with hzero hlimit
        · cases h
        · cases h
        · cases hhead : replyHead text with
          | none =>
            rw [hhead] at h
            cases h
          | some head =>
            obtain ⟨code, sep⟩ := head
            rw [hhead] at h
            simp only at h
            split_ifs at h with hcode hsep
            · cases h
            all_goals
              cases h
              have hne : line ≠ [] := fun hnil => hzero (by rw [hnil]; rfl)
              obtain ⟨hsplit, hline⟩ := isLine_of_readBytes hbytes hne (by omega)
              refine ⟨line, code, sep, p.messages ++ [Text.trimLineEnd (text.drop 4)], ?_, ?_,
                ⟨text, hdecode, hhead⟩, by omega, ?_, ⟨rfl, hending⟩, ?_⟩
              · exact hsplit.trans (congrArg (line ++ ·) hreader.symm)
              · rw [show ({ c with reader } : Conn).reader.bytes = rest from hreader]
                exact hline
              · cases hp : p.code with
                | none => rfl
                | some code' => simpa [hp] using hcode
              · simp [hsep]

theorem length_pos_of_isLine (h : IsLine ending line rest) : 0 < line.length := by
  obtain ⟨body, -, rfl⟩ | ⟨hne, -⟩ := h.ended
  · simp
  · exact List.length_pos_iff.2 hne

/-- The rounds on a reply. -/
theorem loop_of_isReply {size : ℕ} (h : IsReply ending code size s rest) {p : Partial} {fuel : ℕ}
    (hbytes : c.reader.bytes = s) (hending : c.reader.ending = ending) (hsize : p.size = size)
    (hcode : p.code.all (· = code) = true) (hfuel : s.length < fuel) :
    ∃ message c', Stays c c' ∧ c'.reader.bytes = rest ∧
      (loop "EOF" replyLine fuel p c).1 = (.ok (code, message), c') := by
  induction h generalizing p fuel c with
  | last hline hhead hlimit =>
    subst hending hsize
    obtain ⟨fuel, rfl⟩ := Nat.exists_eq_succ_of_ne_zero (Nat.ne_of_gt (Nat.zero_lt_of_lt hfuel))
    obtain ⟨messages, c', hstays, hrest, hrun⟩ :=
      replyLine_of_isLine hbytes hline hhead hlimit hcode
    rw [if_pos rfl] at hrun
    exact ⟨_, c', hstays, hrest, loop_inr hrun fuel⟩
  | more hline hhead hlimit _ ih =>
    subst hending hsize
    obtain ⟨fuel, rfl⟩ := Nat.exists_eq_succ_of_ne_zero (Nat.ne_of_gt (Nat.zero_lt_of_lt hfuel))
    obtain ⟨messages, c', hstays, hrest, hrun⟩ :=
      replyLine_of_isLine hbytes hline hhead hlimit hcode
    rw [if_neg (by decide)] at hrun
    have hpos := length_pos_of_isLine hline
    rw [List.length_append] at hfuel
    obtain ⟨message, c'', hstays', hrest', hrun'⟩ :=
      ih (p := ⟨some code, messages, _⟩) hrest hstays.ending rfl (by simp) (show _ < fuel by omega)
    exact ⟨message, c'', hstays.trans hstays', hrest', (loop_inl hrun fuel).trans hrun'⟩

/-- What the rounds took is a reply. -/
theorem isReply_of_loop {p : Partial} {fuel : ℕ} {message : List Char}
    (h : (loop "EOF" replyLine fuel p c).1 = (.ok (code, message), c')) :
    IsReply c.reader.ending code p.size c.reader.bytes c'.reader.bytes ∧ Stays c c' ∧
      p.code.all (· = code) = true := by
  induction fuel generalizing p c with
  | zero => cases h
  | succ fuel ih =>
    rcases hrun : (replyLine p c).1 with ⟨error | r, c₁⟩
    · rw [loop_error hrun] at h
      cases h
    · obtain ⟨line, code', sep, messages, hbytes, hline, hhead, hlimit, hcode, hstays, rfl⟩ :=
        isLine_of_replyLine hrun
      by_cases hsep : sep = ' '
      · rw [if_pos hsep] at hrun
        rw [loop_inr hrun] at h
        obtain ⟨heq, rfl⟩ := Prod.mk.inj h
        obtain ⟨rfl, -⟩ := Prod.mk.inj (Except.ok.inj heq)
        subst hsep
        refine ⟨?_, hstays, hcode⟩
        rw [hbytes]
        exact .last hline hhead hlimit
      · rw [if_neg hsep] at hrun
        rw [loop_inl hrun] at h
        obtain ⟨hreply, hstays', hsame⟩ := ih h
        obtain rfl : code' = code := by simpa using hsame
        obtain ⟨text, hdecode, htext⟩ := hhead
        obtain rfl := (sep_of_replyHead htext).resolve_left hsep
        refine ⟨?_, hstays.trans hstays', hcode⟩
        rw [hbytes]
        rw [hstays.ending] at hreply
        exact .more hline ⟨text, hdecode, htext⟩ hlimit hreply

/-! ### Parts of the transaction -/

/-- The part succeeds exactly when its lines can be sent and the replies meet the tests. -/
structure Asks {α : Type} (V : Prop) (tests : List (ℕ → Prop)) (m : Talk String α) : Prop where
  sound : ∀ c a c', c.broken = none → (m c).1 = (.ok a, c') →
    V ∧ Stays c c' ∧ Answers c.reader.ending tests c.reader.bytes c'.reader.bytes
  complete : ∀ c rest, c.broken = none → V →
    Answers c.reader.ending tests c.reader.bytes rest →
      ∃ a c', (m c).1 = (.ok a, c') ∧ c'.reader.bytes = rest

section Asks

variable {α β : Type} {V V' : Prop} {tests tests' : List (ℕ → Prop)} {m : Talk String α}

theorem Asks.pure (a : α) : Asks True [] (pure a : Talk String α) where
  sound c a' c' _ h := by
    cases h
    exact ⟨trivial, stays_refl c, rfl⟩
  complete c rest _ _ h := ⟨a, c, rfl, h⟩

theorem Asks.write (s : Bytes) : Asks True [] (write id s : Talk String Unit) where
  sound c a c' hbroken h := by
    rw [write_eq hbroken] at h
    cases h
    exact ⟨trivial, stays_refl c, rfl⟩
  complete c rest hbroken _ h := ⟨(), c, write_eq hbroken, h⟩

/-- A line that cannot be sent. -/
theorem Asks.check (r : Except String Unit) : Asks (r = .ok ()) [] (ofExcept r) where
  sound c a c' _ h := by
    cases h
    exact ⟨rfl, stays_refl c, rfl⟩
  complete c rest _ hr h := by
    subst hr
    exact ⟨(), c, rfl, h⟩

theorem Asks.bind {f : α → Talk String β} (hm : Asks V tests m)
    (hf : ∀ a, Asks V' tests' (f a)) : Asks (V ∧ V') (tests ++ tests') (m >>= f) where
  sound c b c' hbroken h := by
    rcases hrun : (m c).1 with ⟨error | a, c₁⟩
    · rw [run_bind_error hrun] at h
      cases h
    · rw [run_bind_ok hrun] at h
      obtain ⟨hV, hstays, hanswers⟩ := hm.sound c a c₁ hbroken hrun
      obtain ⟨hV', hstays', hanswers'⟩ :=
        (hf a).sound c₁ b c' (hstays.broken.trans hbroken) h
      rw [hstays.ending] at hanswers'
      exact ⟨⟨hV, hV'⟩, hstays.trans hstays', answers_append.2 ⟨_, hanswers, hanswers'⟩⟩
  complete c rest hbroken hV h := by
    obtain ⟨s', hanswers, hanswers'⟩ := answers_append.1 h
    obtain ⟨a, c₁, hrun, hbytes⟩ := hm.complete c s' hbroken hV.1 hanswers
    obtain ⟨-, hstays, -⟩ := hm.sound c a c₁ hbroken hrun
    rw [← hstays.ending, ← hbytes] at hanswers'
    obtain ⟨b, c', hrun', hbytes'⟩ :=
      (hf a).complete c₁ rest (hstays.broken.trans hbroken) hV.2 hanswers'
    exact ⟨b, c', (run_bind_ok hrun).trans hrun', hbytes'⟩

theorem Asks.imp (h : Asks V tests m) (hV : V ↔ V') : Asks V' tests m where
  sound c a c' hbroken hrun := by
    rw [← hV]
    exact h.sound c a c' hbroken hrun
  complete c rest hbroken hV' := h.complete c rest hbroken (hV.2 hV')

theorem asks_expect (expected : ℕ) : Asks True [Meets expected] (expect expected) where
  sound c message c' _ h := by
    rcases hrun : (reply c).1 with ⟨error | ⟨code, text⟩, c₁⟩
    · rw [expect, run_bind_error hrun] at h
      cases h
    · rw [expect, run_bind_ok hrun] at h
      simp only at h
      split_ifs at h with hmeets
      · cases h
        obtain ⟨hreply, hstays, -⟩ := isReply_of_loop hrun
        exact ⟨trivial, hstays, answers_singleton.2 ⟨code, hmeets, hreply⟩⟩
      · cases h
  complete c rest _ _ h := by
    obtain ⟨code, hmeets, hreply⟩ := answers_singleton.1 h
    obtain ⟨text, c', hstays, hbytes, hrun⟩ :=
      loop_of_isReply (p := {}) (c := c) hreply rfl rfl rfl rfl (Nat.lt_succ_self _)
    have hrun' : (reply c).1 = (.ok (code, text), c') := hrun
    refine ⟨text, c', ?_, hbytes⟩
    have hcode : code = expected ∨ (expected < 100 ∧ code / 10 = expected) := hmeets
    rw [expect, run_bind_ok hrun']
    simp only [if_pos hcode]
    rfl

theorem asks_command (text : String) (expected : ℕ) :
    Asks (validateLine text = .ok ()) [Meets expected] (command text expected) := by
  have h := (Asks.check (validateLine text)).bind fun _ => (Asks.write (Utf8.encode text)).bind
    fun _ => (Asks.write crlf).bind fun _ => asks_expect expected
  exact h.imp (by simp)

theorem Asks.forM {γ : Type} {f : γ → Talk String Unit} {V : γ → Prop} {test : ℕ → Prop}
    (h : ∀ a, Asks (V a) [test] (f a)) (l : List γ) :
    Asks (∀ a ∈ l, V a) (l.map fun _ => test) (l.forM f) := by
  induction l with
  | nil => exact (Asks.pure ()).imp (by simp)
  | cons a l ih =>
    have hstep := (h a).bind fun _ => ih
    exact hstep.imp (by simp)

end Asks

/-! ### The envelope and the data -/

/-- The text fits on a line. -/
def Sendable (text : String) : Prop := '\r' ∉ text.toList ∧ '\n' ∉ text.toList

instance (text : String) : Decidable (Sendable text) := inferInstanceAs (Decidable (_ ∧ _))

theorem validateLine_eq_ok {text : String} : validateLine text = .ok () ↔ Sendable text := by
  unfold validateLine Sendable
  split_ifs with h
  · simp only [false_iff, not_and_or, not_not]
    exact h
  · rw [not_or] at h
    simp [h]

theorem sendable_mailLine {sender : String} (eightBit utf8 : Bool) :
    Sendable (mailLine sender eightBit utf8) ↔ Sendable sender := by
  unfold Sendable mailLine
  cases eightBit <;> cases utf8 <;> simp

theorem sendable_rcptLine {recipient : String} : Sendable (rcptLine recipient) ↔ Sendable recipient := by
  unfold Sendable rcptLine
  simp

theorem asks_envelope (sender : String) (extensions recipients : List String) :
    Asks (∀ text ∈ sender :: recipients, Sendable text)
      ([Meets 250] ++ recipients.map fun _ => Meets 25)
      (envelope sender extensions recipients) := by
  have hrecipient (recipient : String) : Asks (Sendable recipient) [Meets 25] (do
      ofExcept (validateLine recipient)
      let _ ← command (rcptLine recipient) 25
      pure ()) := by
    have h := (Asks.check (validateLine recipient)).bind fun _ =>
      (asks_command (rcptLine recipient) 25).bind fun _ => Asks.pure ()
    exact h.imp (by rw [validateLine_eq_ok, validateLine_eq_ok, sendable_rcptLine]; simp)
  have h := (Asks.check (validateLine sender)).bind fun _ =>
    (asks_command (mailLine sender (extensions.contains "8BITMIME")
      (extensions.contains "SMTPUTF8")) 250).bind fun _ => Asks.forM hrecipient recipients
  refine h.imp ?_
  rw [validateLine_eq_ok, validateLine_eq_ok, sendable_mailLine, List.forall_mem_cons]
  simp

theorem asks_handOver (raw : Bytes) : Asks True [Meets 354, Meets 250] (handOver raw) := by
  have h := (asks_command "DATA" 354).bind fun _ => (Asks.write (dotEncode raw)).bind fun _ =>
    (asks_expect 250).bind fun _ => Asks.pure ()
  exact h.imp (by simp [validateLine])

theorem asks_takeLeave : Asks True [Meets 221] takeLeave := by
  have h := (asks_command "QUIT" 221).bind fun _ => Asks.pure ()
  exact h.imp (by simp [validateLine])

/-! ### The transaction -/

/-- The session stands before `MAIL`, for these recipients. -/
def Ready (net : Network) (cfg : SmtpConfig) (recipients : Option (List String)) (c : Conn)
    (list extensions : List String) (c' : Conn) : Prop :=
  validate cfg recipients = .ok list ∧ ∃ c₁, (openSession net cfg c).1 = (.ok extensions, c₁) ∧
    (presentCredentials cfg c₁).1 = (.ok (), c')

/-- The replies that accept a message: to `MAIL`, to every `RCPT`, to `DATA` and to its end. -/
def acceptance (recipients : List String) : List (ℕ → Prop) :=
  ([Meets 250] ++ recipients.map fun _ => Meets 25) ++ [Meets 354, Meets 250]

/-- The server accepts the sender, every recipient and the data.  `rest` is what it sends after the
reply to the end of the data, `ending` how its stream ends. -/
def Accepted (net : Network) (cfg : SmtpConfig) (recipients : Option (List String)) (c : Conn)
    (ending : Option String) (rest : Bytes) : Prop :=
  ∃ list extensions c', Ready net cfg recipients c list extensions c' ∧ c'.broken = none ∧
    (∀ text ∈ cfg.sender :: list, Sendable text) ∧ ending = c'.reader.ending ∧
    Answers ending (acceptance list) c'.reader.bytes rest

section Send

variable {net : Network} {cfg : SmtpConfig} {recipients : Option (List String)} {raw : Bytes}

theorem asks_deliver (sender : String) (extensions recipients : List String) (raw : Bytes) :
    Asks (∀ text ∈ sender :: recipients, Sendable text) (acceptance recipients)
      (envelope sender extensions recipients >>= fun _ => handOver raw) :=
  ((asks_envelope sender extensions recipients).bind fun _ => asks_handOver raw).imp (by simp)

/-- What comes after the session was opened. -/
def transaction (cfg : SmtpConfig) (list extensions : List String) (raw : Bytes) :
    Talk String Unit :=
  (envelope cfg.sender extensions list >>= fun _ => handOver raw) >>= fun _ => takeLeave

theorem Ready.run {list extensions : List String} (h : Ready net cfg recipients c list extensions c')
    (raw : Bytes) : (sendInner net cfg recipients raw c).1 =
      (transaction cfg list extensions raw c').1 := by
  obtain ⟨hvalid, c₁, hopen, hpresent⟩ := h
  rw [sendInner_eq]
  unfold beforeData transaction
  simp only [bind_assoc]
  rw [hvalid, ofExcept_bind, run_bind_ok hopen, run_bind_ok hpresent]

theorem exists_ready {c'' : Conn} (h : (sendInner net cfg recipients raw c).1 = (.ok (), c'')) :
    ∃ list extensions c', Ready net cfg recipients c list extensions c' := by
  rw [sendInner_eq] at h
  unfold beforeData at h
  simp only [bind_assoc] at h
  cases hvalid : validate cfg recipients with
  | error error =>
    rw [hvalid] at h
    cases h
  | ok list =>
    rw [hvalid, ofExcept_bind] at h
    rcases hopen : (openSession net cfg c).1 with ⟨error | extensions, c₁⟩
    · rw [run_bind_error hopen] at h
      cases h
    · rw [run_bind_ok hopen] at h
      rcases hpresent : (presentCredentials cfg c₁).1 with ⟨error | u, c₂⟩
      · rw [run_bind_error hpresent] at h
        cases h
      · exact ⟨list, extensions, c₂, hvalid, c₁, hopen, hpresent⟩

/-- No line goes out on a broken connection. -/
theorem envelope_broken (sender : String) (extensions recipients : List String)
    (h : c.broken ≠ none) : ∃ error, (envelope sender extensions recipients c).1 = (.error error, c) := by
  unfold envelope
  cases validateLine sender with
  | error error => exact ⟨error, rfl⟩
  | ok u =>
    obtain ⟨-, error, hrun⟩ := command_broken (mailLine sender (extensions.contains "8BITMIME")
      (extensions.contains "SMTPUTF8")) 250 h
    rw [ofExcept_bind]
    exact ⟨error, run_bind_error hrun⟩

/-- `send` succeeds exactly when the server accepts the message and then `QUIT`. -/
theorem send_ok_iff (net : Network) (cfg : SmtpConfig) (recipients : Option (List String))
    (raw : Bytes) (c : Conn) : (send net cfg recipients raw c).1.1 = .ok () ↔
      ∃ ending rest rest', Accepted net cfg recipients c ending rest ∧
        IsReply ending 221 0 rest rest' := by
  have hinner : (send net cfg recipients raw c).1.1 = .ok () ↔
      ∃ c'', (sendInner net cfg recipients raw c).1 = (.ok (), c'') := by
    rw [send_eq]
    rcases (sendInner net cfg recipients raw c).1 with ⟨error | u, c''⟩
    · simp [Except.mapError]
    · simp [Except.mapError]
  rw [hinner]
  constructor
  · rintro ⟨c'', hrun⟩
    obtain ⟨list, extensions, c', hready⟩ := exists_ready hrun
    rw [hready.run, transaction] at hrun
    have hbroken : c'.broken = none := by
      by_contra hbroken
      obtain ⟨error, herror⟩ := envelope_broken cfg.sender extensions list hbroken
      rw [bind_assoc, run_bind_error herror] at hrun
      cases hrun
    rcases hmid : ((envelope cfg.sender extensions list >>= fun _ => handOver raw) c').1 with
      ⟨error | u, c₁⟩
    · rw [run_bind_error hmid] at hrun
      cases hrun
    · rw [run_bind_ok hmid] at hrun
      obtain ⟨hsendable, hstays, hanswers⟩ :=
        (asks_deliver cfg.sender extensions list raw).sound c' u c₁ hbroken hmid
      obtain ⟨-, -, hquit⟩ :=
        asks_takeLeave.sound c₁ () c'' (hstays.broken.trans hbroken) hrun
      rw [hstays.ending] at hquit
      obtain ⟨code, hmeets, hreply⟩ := answers_singleton.1 hquit
      obtain rfl : code = 221 := hmeets.resolve_right fun h => absurd h.1 (by decide)
      exact ⟨_, _, _, ⟨list, extensions, c', hready, hbroken, hsendable, rfl, hanswers⟩, hreply⟩
  · rintro ⟨ending, rest, rest', ⟨list, extensions, c', hready, hbroken, hsendable, rfl, hanswers⟩,
      hreply⟩
    obtain ⟨u, c₁, hmid, hbytes⟩ :=
      (asks_deliver cfg.sender extensions list raw).complete c' rest hbroken hsendable hanswers
    obtain ⟨-, hstays, -⟩ :=
      (asks_deliver cfg.sender extensions list raw).sound c' u c₁ hbroken hmid
    have hquit : Answers c₁.reader.ending [Meets 221] c₁.reader.bytes rest' := by
      rw [hstays.ending, hbytes]
      exact answers_singleton.2 ⟨221, Or.inl rfl, hreply⟩
    obtain ⟨v, c'', hrun, -⟩ :=
      asks_takeLeave.complete c₁ rest' (hstays.broken.trans hbroken) trivial hquit
    refine ⟨c'', ?_⟩
    rw [hready.run, transaction, run_bind_ok hmid]
    exact hrun

/-- What the server sends after it accepted the message is determined. -/
theorem Accepted.unique {ending' : Option String} (h : Accepted net cfg recipients c ending rest)
    (h' : Accepted net cfg recipients c ending' rest') : ending = ending' ∧ rest = rest' := by
  obtain ⟨list, extensions, d, ⟨hvalid, c₁, hopen, hpresent⟩, hbroken, hsendable, rfl, hanswers⟩ := h
  obtain ⟨list', extensions', d', ⟨hvalid', c₁', hopen', hpresent'⟩, -, -, rfl, hanswers'⟩ := h'
  obtain rfl : list = list' := Except.ok.inj (hvalid.symm.trans hvalid')
  obtain ⟨hextensions, rfl⟩ := Prod.mk.inj (hopen.symm.trans hopen')
  obtain ⟨-, rfl⟩ := Prod.mk.inj (hpresent.symm.trans hpresent')
  refine ⟨rfl, ?_⟩
  -- both are what one run leaves
  have hrun := (asks_deliver cfg.sender extensions list []).complete d
  obtain ⟨u, e, hrest, rfl⟩ := hrun rest hbroken hsendable hanswers
  obtain ⟨u', e', hrest', rfl⟩ := hrun rest' hbroken hsendable hanswers'
  rw [(Prod.mk.inj (hrest.symm.trans hrest')).2]

end Send

/-! ### A server that hangs up -/

/-- A server that accepts a message for one recipient and closes the stream. -/
def curtServer : Conn :=
  ⟨⟨[], [Utf8.encode "220 x\r\n250 x\r\n250 ok\r\n250 ok\r\n354 go\r\n250 queued\r\n"], none⟩, none,
    none, false⟩

/-- The stream of that server after the greeting, and at its end. -/
def curtAfter (s : Bytes) : Conn := { curtServer with reader := ⟨s, [], none⟩ }

end EraseMe.Email.Smtp
