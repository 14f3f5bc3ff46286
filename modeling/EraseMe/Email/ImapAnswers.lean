import EraseMe.Email.ImapEnds
import EraseMe.Library.Occurrence
import EraseMe.Library.Utf8Text

/-!
# What the readers make of a response

The data of a response is untagged lines, for `FETCH` with literals in them; one completion line
follows.  Each reader is run over the data, and then at the completion line.  That line is taken for
a failure exactly if ` NO ` occurs in it, and by the reader of `FETCH` also if it ends like a line
with a literal (`status_classified_iff`).
-/

namespace EraseMe.Email.Imap

open Result Wire Wire.Talk

/-! ### Lines and literals -/

/-- One line, with its end. -/
def IsLine (line : Bytes) : Prop := ∃ l, 10 ∉ l ∧ line = l ++ [10]

/-- Octets as text, without the line end. -/
def textOf (response : Bytes) : List Char := Text.trimLineEnd (Utf8.lossy response)

/-- Lines with a literal after each, and a line without one. -/
structure Response where
  parts : List (Bytes × Bytes)
  last : Bytes
  isLine : ∀ p ∈ parts, IsLine p.1 ∧ literalLength (textOf p.1) = some p.2.length
  isLast : IsLine last ∧ literalLength (textOf last) = none

/-- The octets of lines with literals. -/
def partOctets (parts : List (Bytes × Bytes)) : Bytes := parts.flatMap fun p => p.1 ++ p.2

namespace Response

/-- The octets of the response. -/
def bytes (r : Response) : Bytes := partOctets r.parts ++ r.last

/-- A literal is longer than those that are read. -/
def TooLong (r : Response) : Prop := ∃ p ∈ r.parts, maxBodyBytes < p.2.length

instance (r : Response) : Decidable r.TooLong :=
  inferInstanceAs (Decidable (∃ p ∈ r.parts, maxBodyBytes < p.2.length))

/-- The response to a fetch. -/
def IsFetch (r : Response) : Prop :=
  "* ".toList.isPrefixOf (textOf r.bytes) ∧ Text.contains " FETCH ".toList (textOf r.bytes)

instance (r : Response) : Decidable r.IsFetch := inferInstanceAs (Decidable (_ ∧ _))

/-- The messages in the response, if it can be read. -/
def messages (r : Response) : Option (List FetchedMessage) :=
  if r.TooLong then none
  else if r.IsFetch then (fetchedOf r.bytes (textOf r.bytes)).toOption.map fun message => [message]
  else some []

end Response

/-! ### Reading a response with literals -/

section Parts

variable {c : Conn} {t : Bytes}

theorem run_readOctets_line {line : Bytes} (hline : IsLine line)
    (hbytes : c.reader.bytes = line ++ t) :
    ∃ reader : Reader, reader.bytes = t ∧ reader.ending = c.reader.ending ∧
      (readOctets c).1 = (.ok line, { c with reader }) := by
  obtain ⟨l, hl, rfl⟩ := hline
  rw [List.append_assoc, List.singleton_append] at hbytes
  obtain ⟨hresult, hrest, hending⟩ := readUntil_eq none c.reader
  rw [readBytes_line (.inr (by simp [hbytes])), hbytes, upTo_line hl, dropLine_line hl]
    at hresult hrest
  refine ⟨_, hrest, hending, ?_⟩
  unfold readOctets receive octetsOf
  generalize c.reader.readUntil none = run at hresult
  obtain ⟨r, reader⟩ := run
  simp only at hresult
  subst hresult
  rfl

theorem readExact_append {r : Reader} {s : Bytes} (hbytes : r.bytes = s ++ t) :
    (r.readExact s.length).1 = .ok s ∧ (r.readExact s.length).2.bytes = t ∧
      (r.readExact s.length).2.ending = r.ending := by
  obtain ⟨htaken, hrest⟩ := takePieces_spec s.length r.buffer r.pieces
  have hle : s.length ≤ (r.buffer ++ r.pieces.flatten).length := by
    rw [← Reader.bytes, hbytes, List.length_append]
    omega
  rw [if_pos hle, ← Reader.bytes, hbytes] at htaken hrest
  rw [List.take_left] at htaken
  rw [List.drop_left] at hrest
  unfold Reader.readExact
  generalize takePieces s.length r.buffer r.pieces = x at htaken hrest
  obtain ⟨taken, buffer, pieces⟩ := x
  simp only at htaken hrest
  subst htaken
  exact ⟨rfl, hrest, rfl⟩

theorem readExact_short {n : ℕ} {r : Reader} (h : r.bytes.length < n) :
    ∃ e, (r.readExact n).1 = .error e := by
  obtain ⟨htaken, -⟩ := takePieces_spec n r.buffer r.pieces
  rw [if_neg (by rw [← Reader.bytes]; omega)] at htaken
  unfold Reader.readExact
  generalize takePieces n r.buffer r.pieces = x at htaken
  obtain ⟨taken, buffer, pieces⟩ := x
  simp only at htaken
  subst htaken
  exact ⟨_, rfl⟩

theorem IsLine.ne_nil {line : Bytes} (h : IsLine line) : line ≠ [] := by
  obtain ⟨l, -, rfl⟩ := h
  simp

/-- A line that is not followed by a literal ends the response. -/
theorem run_responsePart_last {line : Bytes} (hline : IsLine line)
    (hlength : literalLength (textOf line) = none) (hbytes : c.reader.bytes = line ++ t)
    (assembled : Bytes) :
    ∃ reader : Reader, reader.bytes = t ∧ reader.ending = c.reader.ending ∧
      (responsePart assembled c).1 = (.ok (.inr (assembled ++ line)), { c with reader }) := by
  obtain ⟨reader, hrest, hending, hrun⟩ := run_readOctets_line hline hbytes
  refine ⟨reader, hrest, hending, ?_⟩
  rw [responsePart, run_bind_ok hrun, if_neg hline.ne_nil]
  rw [textOf] at hlength
  rw [hlength]
  rfl

/-- A line with a literal is read with it, unless the literal is too long. -/
theorem run_responsePart_literal {line literal : Bytes} (hline : IsLine line)
    (hlength : literalLength (textOf line) = some literal.length)
    (hbytes : c.reader.bytes = line ++ (literal ++ t)) (assembled : Bytes) :
    (maxBodyBytes < literal.length → ∃ e, (responsePart assembled c).1.1 = .error e) ∧
      (literal.length ≤ maxBodyBytes → ∃ reader : Reader, reader.bytes = t ∧
        reader.ending = c.reader.ending ∧ (responsePart assembled c).1 =
          (.ok (.inl (assembled ++ (line ++ literal))), { c with reader })) := by
  obtain ⟨reader, hrest, hending, hrun⟩ := run_readOctets_line hline hbytes
  rw [textOf] at hlength
  rw [responsePart, run_bind_ok hrun, if_neg hline.ne_nil, hlength]
  constructor
  · intro hlong
    refine ⟨fetchFailure "IMAP body section exceeds 65536 bytes", ?_⟩
    simp only [run_bind, receive, boundedBody, if_pos hlong]
  · intro hshort
    obtain ⟨hread, hrest', hending'⟩ := readExact_append hrest
    refine ⟨_, hrest', hending'.trans hending, ?_⟩
    simp only [run_bind, receive, boundedBody, if_neg (Nat.not_lt.2 hshort)]
    generalize reader.readExact literal.length = run at hread
    obtain ⟨r, reader'⟩ := run
    simp only at hread
    subst hread
    simp only [List.append_assoc]
    rfl

/-- A line that asks for more than there is. -/
theorem run_responsePart_short {line : Bytes} (hline : IsLine line) {n : ℕ}
    (hlength : literalLength (textOf line) = some n) (hbytes : c.reader.bytes = line ++ t)
    (hshort : t.length < n) (assembled : Bytes) :
    ∃ e, (responsePart assembled c).1.1 = .error e := by
  obtain ⟨reader, hrest, -, hrun⟩ := run_readOctets_line hline hbytes
  rw [textOf] at hlength
  rw [responsePart, run_bind_ok hrun, if_neg hline.ne_nil, hlength]
  by_cases hlong : maxBodyBytes < n
  · refine ⟨fetchFailure "IMAP body section exceeds 65536 bytes", ?_⟩
    simp only [run_bind, receive, boundedBody, if_pos hlong]
  · obtain ⟨e, he⟩ := readExact_short (n := n) (r := reader) (by rwa [hrest])
    refine ⟨.message ("IMAP read body failed: " ++ e), ?_⟩
    simp only [run_bind, receive, boundedBody, if_neg hlong]
    generalize reader.readExact n = run at he
    obtain ⟨r, reader'⟩ := run
    simp only at he
    subst he
    rfl

/-- Nothing more comes. -/
theorem run_responsePart_nil (hbytes : c.reader.bytes = []) (assembled : Bytes) :
    ∃ e, (responsePart assembled c).1.1 = .error e := by
  obtain ⟨hresult, -, -⟩ := readUntil_eq none c.reader
  rw [hbytes] at hresult
  unfold responsePart
  rcases hrun : (readOctets c).1 with ⟨e | line, c'⟩
  · exact ⟨e, by rw [run_bind_error hrun]⟩
  · refine ⟨fetchFailure "connection closed", ?_⟩
    have hnil : line = [] := by
      unfold readOctets receive octetsOf at hrun
      generalize c.reader.readUntil none = run at hrun hresult
      obtain ⟨_ | read, reader⟩ := run
      · cases hrun
      · cases hrun
        cases hending : c.reader.ending with
        | none => simpa [readBytes, enough, hending] using hresult
        | some error => simp [readBytes, enough, hending] at hresult
    rw [run_bind_ok hrun, if_pos hnil]
    rfl

/-- Literals that are read are put together with their lines. -/
theorem loop_responsePart {parts : List (Bytes × Bytes)} {last : Bytes}
    (hparts : ∀ p ∈ parts, IsLine p.1 ∧ literalLength (textOf p.1) = some p.2.length)
    (hshort : ∀ p ∈ parts, p.2.length ≤ maxBodyBytes)
    (hlast : IsLine last ∧ literalLength (textOf last) = none)
    (hbytes : c.reader.bytes = partOctets parts ++ last ++ t) {fuel : ℕ}
    (hfuel : parts.length < fuel) (assembled : Bytes) :
    ∃ reader : Reader, reader.bytes = t ∧ reader.ending = c.reader.ending ∧
      (loop .diverged responsePart fuel assembled c).1 =
        (.ok (assembled ++ (partOctets parts ++ last)), { c with reader }) := by
  induction parts generalizing c fuel assembled with
  | nil =>
    obtain ⟨fuel, rfl⟩ : ∃ n, fuel = n + 1 := ⟨fuel - 1, by simp at hfuel; omega⟩
    obtain ⟨reader, hrest, hending, hrun⟩ :=
      run_responsePart_last hlast.1 hlast.2 hbytes assembled
    exact ⟨reader, hrest, hending, loop_inr hrun fuel⟩
  | cons p parts ih =>
    obtain ⟨fuel, rfl⟩ : ∃ n, fuel = n + 1 := ⟨fuel - 1, by simp at hfuel; omega⟩
    rw [List.forall_mem_cons] at hparts hshort
    have hsplit : c.reader.bytes = p.1 ++ (p.2 ++ (partOctets parts ++ last ++ t)) := by
      rw [hbytes]
      simp [partOctets]
    obtain ⟨-, hread⟩ := run_responsePart_literal hparts.1.1 hparts.1.2 hsplit assembled
    obtain ⟨reader, hrest, hending, hrun⟩ := hread hshort.1
    have hfuel' : parts.length < fuel := by simpa using hfuel
    obtain ⟨reader', hrest', hending', hrun'⟩ := ih (c := { c with reader }) hparts.2 hshort.2 hrest
      hfuel' (assembled ++ (p.1 ++ p.2))
    refine ⟨reader', hrest', hending'.trans hending, ?_⟩
    rw [loop_inl hrun, hrun']
    simp [partOctets]

/-- A literal that is too long ends the reading. -/
theorem loop_responsePart_tooLong {parts : List (Bytes × Bytes)}
    (hparts : ∀ p ∈ parts, IsLine p.1 ∧ literalLength (textOf p.1) = some p.2.length)
    (hlong : ∃ p ∈ parts, maxBodyBytes < p.2.length)
    (hbytes : c.reader.bytes = partOctets parts ++ t) (fuel : ℕ) (assembled : Bytes) :
    ∃ e, (loop .diverged responsePart fuel assembled c).1.1 = .error e := by
  induction parts generalizing c fuel assembled with
  | nil => simp at hlong
  | cons p parts ih =>
    cases fuel with
    | zero => exact ⟨_, rfl⟩
    | succ fuel =>
      rw [List.forall_mem_cons] at hparts
      have hsplit : c.reader.bytes = p.1 ++ (p.2 ++ (partOctets parts ++ t)) := by
        rw [hbytes]
        simp [partOctets]
      obtain ⟨hfail, hread⟩ := run_responsePart_literal hparts.1.1 hparts.1.2 hsplit assembled
      by_cases hp : maxBodyBytes < p.2.length
      · obtain ⟨e, he⟩ := hfail hp
        exact ⟨e, by rw [loop_error (Prod.ext he rfl)]⟩
      · obtain ⟨reader, hrest, -, hrun⟩ := hread (Nat.le_of_not_lt hp)
        rw [List.exists_mem_cons_iff] at hlong
        rw [loop_inl hrun]
        exact ih (c := { c with reader }) hparts.2 (hlong.resolve_left hp) hrest fuel _

/-- A last line that asks for a literal ends the reading. -/
theorem loop_responsePart_starved {line : Bytes} (hline : IsLine line) {n : ℕ}
    (hlength : literalLength (textOf line) = some n) (hbytes : c.reader.bytes = line) (fuel : ℕ)
    (assembled : Bytes) : ∃ e, (loop .diverged responsePart fuel assembled c).1.1 = .error e := by
  have failed {fuel : ℕ} {assembled : Bytes} {c : Conn}
      (h : ∃ e, (responsePart assembled c).1.1 = .error e) :
      ∃ e, (loop .diverged responsePart fuel assembled c).1.1 = .error e := by
    obtain ⟨e, he⟩ := h
    cases fuel with
    | zero => exact ⟨_, rfl⟩
    | succ fuel => exact ⟨e, by rw [loop_error (Prod.ext he rfl)]⟩
  rw [← List.append_nil line] at hbytes
  by_cases hn : n = 0
  · subst hn
    have hempty : c.reader.bytes = line ++ ([] ++ []) := hbytes
    have hzero : literalLength (textOf line) = some ([] : Bytes).length := hlength
    obtain ⟨-, hread⟩ := run_responsePart_literal hline hzero hempty assembled
    obtain ⟨reader, hrest, -, hrun⟩ := hread (Nat.zero_le _)
    cases fuel with
    | zero => exact ⟨_, rfl⟩
    | succ fuel =>
      rw [loop_inl hrun]
      exact failed (run_responsePart_nil (c := { c with reader }) hrest _)
  · exact failed (run_responsePart_short hline hlength hbytes (Nat.pos_of_ne_zero hn) assembled)

end Parts

/-! ### Reading the messages -/

section Fetched

variable {tag : ℕ} {c : Conn} {t : Bytes}

theorem length_lt_of_parts {parts : List (Bytes × Bytes)}
    (hparts : ∀ p ∈ parts, IsLine p.1 ∧ literalLength (textOf p.1) = some p.2.length) :
    parts.length ≤ (partOctets parts).length := by
  induction parts with
  | nil => exact le_rfl
  | cons p parts ih =>
    rw [List.forall_mem_cons] at hparts
    have hpos := List.length_pos_iff.2 hparts.1.1.ne_nil
    have hrest := ih hparts.2
    simp only [partOctets, List.flatMap_cons, List.length_append, List.length_cons] at hrest ⊢
    omega

theorem run_readResponseBytes (r : Response) (hshort : ¬ r.TooLong)
    (hbytes : c.reader.bytes = r.bytes ++ t) :
    ∃ reader : Reader, reader.bytes = t ∧ reader.ending = c.reader.ending ∧
      (readResponseBytes c).1 = (.ok r.bytes, { c with reader }) := by
  have hlength : r.parts.length < c.reader.bytes.length + 1 := by
    have hle := length_lt_of_parts r.isLine
    rw [hbytes, Response.bytes, List.length_append, List.length_append]
    omega
  have hfits : ∀ p ∈ r.parts, p.2.length ≤ maxBodyBytes := fun p hp =>
    Nat.le_of_not_lt fun hlong => hshort ⟨p, hp, hlong⟩
  exact loop_responsePart r.isLine hfits r.isLast hbytes hlength []

theorem run_readResponseBytes_tooLong (r : Response) (hlong : r.TooLong)
    (hbytes : c.reader.bytes = r.bytes ++ t) : ∃ e, (readResponseBytes c).1.1 = .error e := by
  rw [Response.bytes, List.append_assoc] at hbytes
  exact loop_responsePart_tooLong r.isLine hlong hbytes _ []

/-- One untagged response gives its messages, or ends the reading with an error. -/
theorem run_fetchResponse_untagged (r : Response) (htag : ¬ tagOf tag <+: textOf r.bytes)
    (hbytes : c.reader.bytes = r.bytes ++ t) (fetched : List FetchedMessage) :
    match r.messages with
    | none => ∃ e, (fetchResponse tag fetched c).1.1 = .error e
    | some l => ∃ reader : Reader, reader.bytes = t ∧ reader.ending = c.reader.ending ∧
        (fetchResponse tag fetched c).1 = (.ok (.inl (fetched ++ l)), { c with reader }) := by
  unfold Response.messages
  by_cases hlong : r.TooLong
  · rw [if_pos hlong]
    obtain ⟨e, he⟩ := run_readResponseBytes_tooLong r hlong hbytes
    exact ⟨e, by rw [fetchResponse, run_bind_error (Prod.ext he rfl)]⟩
  rw [if_neg hlong]
  obtain ⟨reader, hrest, hending, hrun⟩ := run_readResponseBytes r hlong hbytes
  unfold fetchResponse
  by_cases hfetch : r.IsFetch
  · rw [if_pos hfetch, run_bind_ok hrun, textOf]
    rw [Response.IsFetch, textOf] at hfetch
    rw [if_pos hfetch]
    cases hfetched : fetchedOf r.bytes (Text.trimLineEnd (Utf8.lossy r.bytes)) with
    | error e => exact ⟨e, rfl⟩
    | ok message => exact ⟨reader, hrest, hending, rfl⟩
  · rw [if_neg hfetch]
    have htag' := isPrefixOf_tag_eq_false htag
    refine ⟨reader, hrest, hending, ?_⟩
    rw [Response.IsFetch, textOf] at hfetch
    rw [textOf] at htag'
    rw [run_bind_ok hrun, if_neg hfetch, htag', List.append_nil]
    rfl

/-- All untagged responses: their messages in their order, or an error. -/
theorem loop_fetchResponse {responses : List Response}
    (htag : ∀ r ∈ responses, ¬ tagOf tag <+: textOf r.bytes)
    (hbytes : c.reader.bytes = responses.flatMap Response.bytes ++ t) (fuel : ℕ)
    (fetched : List FetchedMessage) :
    match responses.mapM Response.messages with
    | none => ∃ e, (loop .diverged (fetchResponse tag) (fuel + responses.length) fetched c).1.1 =
        .error e
    | some ls => ∃ reader : Reader, reader.bytes = t ∧ reader.ending = c.reader.ending ∧
        (loop .diverged (fetchResponse tag) (fuel + responses.length) fetched c).1 =
          (loop .diverged (fetchResponse tag) fuel (fetched ++ ls.flatten)
            { c with reader }).1 := by
  induction responses generalizing c fetched with
  | nil => exact ⟨c.reader, hbytes, rfl, by simp⟩
  | cons r responses ih =>
    rw [List.forall_mem_cons] at htag
    rw [List.flatMap_cons, List.append_assoc] at hbytes
    have hfirst := run_fetchResponse_untagged r htag.1 hbytes fetched
    rw [List.mapM_cons, List.length_cons, ← Nat.add_assoc]
    cases hmessages : r.messages with
    | none =>
      rw [hmessages] at hfirst
      obtain ⟨e, he⟩ := hfirst
      exact ⟨e, by rw [loop_error (Prod.ext he rfl)]⟩
    | some l =>
      rw [hmessages] at hfirst
      obtain ⟨reader, hrest, hending, hrun⟩ := hfirst
      have hothers := ih (c := { c with reader }) htag.2 hrest (fetched ++ l)
      rw [loop_inl hrun]
      cases hls : responses.mapM Response.messages with
      | none =>
        rw [hls] at hothers
        exact hothers
      | some ls =>
        rw [hls] at hothers
        obtain ⟨reader', hrest', hending', hrun'⟩ := hothers
        refine ⟨reader', hrest', hending'.trans hending, ?_⟩
        rw [hrun']
        simp

end Fetched

/-! ### Reading lines -/

section Lines

variable {tag : ℕ} {α β : Type} {answer : α → List Char → Talk Failure (α ⊕ β)}
  {update : α → List Char → α} {c : Conn} {t : Bytes}

theorem run_round_line (answer : α → List Char → Talk Failure (α ⊕ β)) {line : Bytes}
    (hline : IsLine line) (hbytes : c.reader.bytes = line ++ t) (a : α) :
    ∃ reader : Reader, reader.bytes = t ∧ reader.ending = c.reader.ending ∧
      (round answer a c).1 = match lineText line with
        | .ok text => (answer a text { c with reader }).1
        | .error e => (.error e, { c with reader }) := by
  obtain ⟨l, hl, rfl⟩ := hline
  rw [List.append_assoc, List.singleton_append] at hbytes
  have hmem : 10 ∈ c.reader.bytes := by simp [hbytes]
  obtain ⟨reader, hrest, hending, hrun⟩ := run_round answer (.inr hmem) a
  rw [hbytes, dropLine_line hl] at hrest
  rw [hbytes, upTo_line hl] at hrun
  exact ⟨reader, hrest, hending, hrun⟩

/-- All untagged lines are taken in by the loop, or one of them is no text. -/
theorem loop_lines (hskip : ∀ a text, ¬ tagOf tag <+: text →
      answer a text = pure (.inl (update a text)))
    {lines : List Bytes} (hlines : ∀ l ∈ lines, IsLine l ∧ ¬ octets (tagOf tag) <+: l)
    (hbytes : c.reader.bytes = lines.flatten ++ t) (fuel : ℕ) (a : α) :
    match lines.mapM fun l => (lineText l).toOption with
    | none => ∃ e, (rounds answer (fuel + lines.length) a c).1.1 = .error e
    | some texts => ∃ reader : Reader, reader.bytes = t ∧ reader.ending = c.reader.ending ∧
        (rounds answer (fuel + lines.length) a c).1 =
          (rounds answer fuel (texts.foldl update a) { c with reader }).1 := by
  induction lines generalizing c a with
  | nil => exact ⟨c.reader, hbytes, rfl, rfl⟩
  | cons l lines ih =>
    rw [List.forall_mem_cons] at hlines
    rw [List.flatten_cons, List.append_assoc] at hbytes
    obtain ⟨reader, hrest, hending, hrun⟩ := run_round_line answer hlines.1.1 hbytes a
    rw [List.mapM_cons, List.length_cons, ← Nat.add_assoc]
    cases htext : lineText l with
    | error e =>
      rw [htext] at hrun
      exact ⟨e, by rw [rounds, loop_error hrun]⟩
    | ok text =>
      have hmark : ¬ tagOf tag <+: text := by
        rw [prefix_lineText (isMark_tagOf tag) htext]
        exact hlines.1.2
      rw [htext] at hrun
      simp only [hskip a text hmark] at hrun
      have hothers := ih (c := { c with reader }) hlines.2 hrest (update a text)
      rw [rounds, loop_inl hrun]
      cases htexts : lines.mapM fun l => (lineText l).toOption with
      | none =>
        rw [htexts] at hothers
        exact hothers
      | some texts =>
        rw [htexts] at hothers
        obtain ⟨reader', hrest', hending', hrun'⟩ := hothers
        exact ⟨reader', hrest', hending'.trans hending, hrun'⟩

end Lines

/-! ### The completion line -/

/-- How a command ended. -/
inductive Status
  | ok
  | no
  | bad
  deriving DecidableEq

/-- The word of a status. -/
def Status.word : Status → List Char
  | ok => ['O', 'K']
  | no => ['N', 'O']
  | bad => ['B', 'A', 'D']

/-- Text without line ends. -/
structure LineText where
  chars : List Char
  noLineEnd : ∀ c ∈ chars, Text.isLineEnd c = false

/-- The line that ends a command. -/
def completion (tag : ℕ) (status : Status) (text : List Char) : List Char :=
  tagOf tag ++ (' ' :: status.word ++ ' ' :: text)

/-- A line on the wire. -/
def wire (line : List Char) : Bytes := Utf8.encode (String.ofList (line ++ ['\r', '\n']))

section Completion

variable {tag : ℕ} {status : Status} {text line : List Char}

theorem not_mem_tagOf {c : Char} (hA : c ≠ 'A') (hdigit : c.isDigit = false) : c ∉ tagOf tag := by
  intro hmem
  simp only [tagOf, Text.padded, List.mem_cons, List.mem_append, List.mem_replicate] at hmem
  rcases hmem with h | ⟨-, rfl⟩ | h
  · exact hA h
  · cases hdigit
  · rw [Text.isDigit_of_mem_toDigits h] at hdigit
    cases hdigit

theorem trimLineEnd_crlf (h : ∀ c ∈ line, Text.isLineEnd c = false) :
    Text.trimLineEnd (line ++ ['\r', '\n']) = line := by
  show (line ++ ['\r', '\n']).rdropWhile Text.isLineEnd = line
  have hsplit : line ++ ['\r', '\n'] = line ++ ['\r'] ++ ['\n'] := by simp
  rw [hsplit, List.rdropWhile_concat_pos _ _ _ rfl, List.rdropWhile_concat_pos _ _ _ rfl,
    List.rdropWhile_eq_self_iff]
  intro hne
  rw [h _ (List.getLast_mem hne)]
  exact Bool.false_ne_true

theorem isLine_wire (h : ∀ c ∈ line, Text.isLineEnd c = false) : IsLine (wire line) := by
  refine ⟨Utf8.encode (String.ofList line) ++ [13], ?_, ?_⟩
  · rw [List.mem_append, not_or]
    refine ⟨fun hmem => ?_, by decide⟩
    have hline := h _ (Utf8.mem_of_mem_encode (by decide) hmem)
    exact absurd hline (by decide)
  · simp [wire, Utf8.encode, String.utf8EncodeChar]

theorem textOf_wire (h : ∀ c ∈ line, Text.isLineEnd c = false) : textOf (wire line) = line := by
  rw [textOf, wire, Utf8.lossy_encode, trimLineEnd_crlf h]

theorem lineText_wire (h : ∀ c ∈ line, Text.isLineEnd c = false) :
    lineText (wire line) = .ok line := by
  rw [lineText, wire, Utf8.decode_encode]
  simp only [trimLineEnd_crlf h]

theorem isLineEnd_completion (tag : ℕ) (status : Status)
    (h : ∀ c ∈ text, Text.isLineEnd c = false) :
    ∀ c ∈ completion tag status text, Text.isLineEnd c = false := by
  intro c hc
  simp only [completion, List.mem_append, List.mem_cons] at hc
  rcases hc with hc | (rfl | hc) | rfl | hc
  · exact (isMark_tagOf tag c hc).2
  · rfl
  · revert c
    cases status <;> decide
  · rfl
  · exact h c hc

theorem tag_prefix_completion : tagOf tag <+: completion tag status text :=
  List.prefix_append _ _

theorem star_not_prefix_completion : "* ".toList.isPrefixOf (completion tag status text) = false :=
  rfl

theorem uidValidityOf_completion : uidValidityOf (completion tag status text) = none := rfl

theorem after_no_completion (hstatus : status ≠ .no) :
    Text.after " NO ".toList (completion tag status text) =
      Text.after " NO ".toList (' ' :: text) := by
  have hspace : ' ' ∉ tagOf tag := not_mem_tagOf (by decide) rfl
  have hword : Text.Apart " NO ".toList (' ' :: status.word) (' ' :: text) := by
    intro v hv hne
    cases status with
    | no => exact absurd rfl hstatus
    | ok =>
      simp only [Status.word, List.suffix_cons_iff, List.suffix_nil] at hv
      rcases hv with rfl | rfl | rfl | rfl
      · simp
      · simp
      · simp
      · exact absurd rfl hne
    | bad =>
      simp only [Status.word, List.suffix_cons_iff, List.suffix_nil] at hv
      rcases hv with rfl | rfl | rfl | rfl | rfl
      · simp
      · simp
      · simp
      · simp
      · exact absurd rfl hne
  have hskip : Text.after " NO ".toList (completion tag status text) =
      Text.after " NO ".toList (' ' :: status.word ++ ' ' :: text) :=
    Text.after_append (Text.apart_of_head hspace)
  exact hskip.trans (Text.after_append hword)

/-- A completion line other than `NO` is passed if ` NO ` is not in its text. -/
theorem noWords_completion (hstatus : status ≠ .no) :
    noWords (completion tag status text) = none ↔ ¬ " NO ".toList <:+: ' ' :: text := by
  rw [noWords, Option.map_eq_none_iff, after_no_completion hstatus, Text.after_eq_none]

theorem noWords_completion_no : noWords (completion tag .no text) ≠ none := by
  rw [noWords, ne_eq, Option.map_eq_none_iff, Text.after_eq_none, not_not]
  exact ⟨tagOf tag, text, by simp [completion, Status.word]⟩

theorem literalLength_append {a : List Char} (ha : '{' ∉ a) (hlast : a.getLast? ≠ some '}') :
    literalLength (a ++ text) = literalLength text := by
  rcases List.eq_nil_or_concat' text with rfl | ⟨s, c, rfl⟩
  · rw [List.append_nil, literalLength, if_neg hlast]
    rfl
  · have hsame : (a ++ (s ++ [c])).getLast? = (s ++ [c]).getLast? := by
      rw [← List.append_assoc, List.getLast?_concat, List.getLast?_concat]
    rw [literalLength, literalLength, hsame, Text.rsplitOnce_append ha]
    cases Text.rsplitOnce '{' (s ++ [c]) with
    | none => rfl
    | some p => rfl

theorem literalLength_completion :
    literalLength (completion tag status text) = literalLength text := by
  have hsplit : completion tag status text =
      (tagOf tag ++ ' ' :: status.word ++ [' ']) ++ text := by simp [completion]
  rw [hsplit]
  refine literalLength_append ?_ (by rw [List.getLast?_concat]; decide)
  have htag : '{' ∉ tagOf tag := not_mem_tagOf (by decide) rfl
  have hword : '{' ∉ ' ' :: status.word ++ [' '] := by
    cases status <;> decide
  rw [List.append_assoc, List.mem_append, not_or]
  exact ⟨htag, hword⟩

end Completion

/-! ### Data and completion -/

/-- A line that does not start with the tag. -/
structure Untagged (tag : ℕ) where
  line : Bytes
  isLine : IsLine line
  untagged : ¬ octets (tagOf tag) <+: line

/-- The same, with literals. -/
structure UntaggedResponse (tag : ℕ) extends Response where
  untagged : ¬ tagOf tag <+: textOf toResponse.bytes

/-- The data of a response. -/
inductive Data (tag : ℕ)
  | examine (lines : List (Untagged tag))
  | search (lines : List (Untagged tag))
  | fetch (responses : List (UntaggedResponse tag))

namespace Data

variable {tag : ℕ}

/-- The octets of the data. -/
def bytes : Data tag → Bytes
  | examine lines | search lines => (lines.map Untagged.line).flatten
  | fetch responses => (responses.map UntaggedResponse.toResponse).flatMap Response.bytes

/-- The function that reads the data. -/
def reading : Data tag → Reading
  | examine _ => .examine
  | search _ => .search
  | fetch _ => .fetch

/-- The data is what the command answers with: text, with a `UIDVALIDITY`, or messages. -/
def Acceptable : Data tag → Prop
  | examine lines => (∀ l ∈ lines, Utf8.decode l.line ≠ none) ∧
      ∃ l ∈ lines, ∃ text, lineText l.line = .ok text ∧ uidValidityOf text ≠ none
  | search lines => ∀ l ∈ lines, Utf8.decode l.line ≠ none
  | fetch responses => ∀ r ∈ responses, r.messages ≠ none

/-- Nothing in the text of the completion line looks like a refusal or a literal. -/
def Quiet (text : List Char) : Data tag → Prop
  | examine _ | search _ => ¬ " NO ".toList <:+: ' ' :: text
  | fetch _ => ¬ " NO ".toList <:+: ' ' :: text ∧ literalLength text = none

end Data

section Classified

variable {tag : ℕ} {status : Status} {text : List Char} {c : Conn}

theorem run_forget {α : Type} (m : Talk Failure α) (c : Conn) :
    (Reading.forget m c).1.1.isOk = (m c).1.1.isOk := by
  unfold Reading.forget
  rw [run_bind]
  rcases m c with ⟨⟨e | a, c'⟩, log⟩
  · rfl
  · rfl

theorem isOk_readExamineResponse (tag : ℕ) (c : Conn) :
    (readExamineResponse tag c).1.1.isOk = true ↔
      ∃ uidValidity,
        (repeatedly (round (examineLine tag)) none c).1.1 = .ok (some uidValidity) := by
  unfold readExamineResponse
  rw [run_bind]
  rcases repeatedly (round (examineLine tag)) none c with ⟨⟨e | _ | uidValidity, c'⟩, log⟩
  · simp [Except.isOk, Except.toBool]
  · simp [fail, Except.isOk, Except.toBool]
  · exact iff_of_true rfl ⟨uidValidity, rfl⟩

theorem foldl_or_eq_none {α β : Type} {f : α → Option β} {l : List α} {a : Option β} :
    l.foldl (fun a x => (f x).or a) a = none ↔ a = none ∧ ∀ x ∈ l, f x = none := by
  induction l generalizing a with
  | nil => simp
  | cons x l ih =>
    rw [List.foldl_cons, ih, Option.or_eq_none_iff, List.forall_mem_cons]
    tauto

theorem lineText_eq_error {line : Bytes} :
    (lineText line).toOption = none ↔ Utf8.decode line = none := by
  unfold lineText
  cases Utf8.decode line with
  | none => simp [Except.toOption]
  | some text => simp [Except.toOption]

theorem length_le_flatten {lines : List Bytes} (h : ∀ l ∈ lines, IsLine l) :
    lines.length ≤ lines.flatten.length := by
  induction lines with
  | nil => exact le_rfl
  | cons l lines ih =>
    rw [List.forall_mem_cons] at h
    have hpos := List.length_pos_iff.2 h.1.ne_nil
    have hrest := ih h.2
    rw [List.flatten_cons, List.length_append, List.length_cons]
    omega

/-- The loops of `EXAMINE` and `SEARCH`, over the data and the completion line. -/
theorem rounds_completion {α β : Type} (answer : α → List Char → Talk Failure (α ⊕ β))
    (update : α → List Char → α) (result : α → β)
    (hanswer : ∀ a text, answer a text =
      if (tagOf tag).isPrefixOf text then
        match noWords text with
        | some words => fail (imapFailure words)
        | none => pure (.inr (result (update a text)))
      else pure (.inl (update a text)))
    (htext : ∀ c ∈ text, Text.isLineEnd c = false) (lines : List (Untagged tag))
    (hbytes : c.reader.bytes =
      (lines.map Untagged.line).flatten ++ wire (completion tag status text)) (a : α) :
    match (lines.map Untagged.line).mapM fun l => (lineText l).toOption with
    | none => ∃ e, (repeatedly (round answer) a c).1.1 = .error e
    | some texts =>
        if noWords (completion tag status text) = none then
          (repeatedly (round answer) a c).1.1 =
            .ok (result (update (texts.foldl update a) (completion tag status text)))
        else ∃ e, (repeatedly (round answer) a c).1.1 = .error e := by
  have hlines : ∀ l ∈ lines.map Untagged.line, IsLine l ∧ ¬ octets (tagOf tag) <+: l := by
    intro l hl
    obtain ⟨u, -, rfl⟩ := List.mem_map.1 hl
    exact ⟨u.isLine, u.untagged⟩
  have hskip : ∀ a text, ¬ tagOf tag <+: text → answer a text = pure (.inl (update a text)) := by
    intro a text hmark
    rw [hanswer, isPrefixOf_tag_eq_false hmark]
    rfl
  have hmark : (tagOf tag).isPrefixOf (completion tag status text) = true :=
    List.isPrefixOf_iff_prefix.2 tag_prefix_completion
  have hline := isLineEnd_completion tag status htext
  -- Every line takes at least one byte, so that there is a round left for the completion line.
  have hlength := length_le_flatten fun l hl => (hlines l hl).1
  obtain ⟨fuel, hfuel⟩ : ∃ fuel, c.reader.bytes.length + 1 =
      fuel + 1 + (lines.map Untagged.line).length := by
    refine ⟨c.reader.bytes.length - (lines.map Untagged.line).length, ?_⟩
    rw [hbytes, List.length_append] at *
    omega
  have hdata := loop_lines hskip hlines hbytes (fuel + 1) a
  rw [← hfuel, ← repeatedly_round] at hdata
  cases htexts : (lines.map Untagged.line).mapM fun l => (lineText l).toOption with
  | none =>
    rw [htexts] at hdata
    exact hdata
  | some texts =>
    rw [htexts] at hdata
    obtain ⟨reader, hrest, -, hrun⟩ := hdata
    have hlast : reader.bytes = wire (completion tag status text) ++ [] := by
      rw [List.append_nil]
      exact hrest
    obtain ⟨reader', -, -, hround⟩ :=
      run_round_line (c := { c with reader }) answer (isLine_wire hline) hlast
        (texts.foldl update a)
    rw [lineText_wire hline] at hround
    simp only [hanswer, hmark, if_true] at hround
    rw [hrun]
    cases hwords : noWords (completion tag status text) with
    | none =>
      rw [hwords] at hround
      simp only [if_true, rounds, loop_inr hround]
    | some words =>
      rw [hwords] at hround
      exact ⟨_, by rw [rounds, loop_error hround]⟩

theorem run_readResponseBytes_line {line : Bytes} (hline : IsLine line)
    (hlength : literalLength (textOf line) = none) (hbytes : c.reader.bytes = line) :
    ∃ reader : Reader, (readResponseBytes c).1 = (.ok line, { c with reader }) := by
  have hparts : c.reader.bytes = partOctets [] ++ line ++ [] := by simp [hbytes, partOctets]
  obtain ⟨reader, -, -, hread⟩ := loop_responsePart (by simp) (by simp) ⟨hline, hlength⟩ hparts
    (Nat.succ_pos c.reader.bytes.length) []
  exact ⟨reader, hread⟩

/-- The reader of `FETCH` at the completion line. -/
theorem run_fetchResponse_completion (htext : ∀ c ∈ text, Text.isLineEnd c = false)
    (hbytes : c.reader.bytes = wire (completion tag status text)) (fetched : List FetchedMessage) :
    if noWords (completion tag status text) = none ∧ literalLength text = none then
      ∃ d, (fetchResponse tag fetched c).1 = (.ok (.inr fetched), d)
    else ∃ e d, (fetchResponse tag fetched c).1 = (.error e, d) := by
  have hline := isLineEnd_completion tag status htext
  have hlength : literalLength (textOf (wire (completion tag status text))) =
      literalLength text := by
    rw [textOf_wire hline, literalLength_completion]
  cases hliteral : literalLength text with
  | some n =>
    -- the literal that the line seems to announce never comes
    rw [if_neg (fun h => Option.some_ne_none n h.2)]
    obtain ⟨e, he⟩ := loop_responsePart_starved (isLine_wire hline) (hlength.trans hliteral) hbytes
      (c.reader.bytes.length + 1) []
    exact ⟨e, _, run_bind_error (Prod.ext he rfl)⟩
  | none =>
    obtain ⟨reader, hread⟩ :=
      run_readResponseBytes_line (isLine_wire hline) (hlength.trans hliteral) hbytes
    have hmark : (tagOf tag).isPrefixOf (completion tag status text) = true :=
      List.isPrefixOf_iff_prefix.2 tag_prefix_completion
    have hhead : Text.trimLineEnd (Utf8.lossy (wire (completion tag status text))) =
        completion tag status text := textOf_wire hline
    have hrun : (fetchResponse tag fetched c).1 =
        ((match noWords (completion tag status text) with
          | some words => fail (fetchFailure words)
          | none => pure (.inr fetched) : Talk Failure _) { c with reader }).1 := by
      unfold fetchResponse
      rw [run_bind_ok hread, hhead, star_not_prefix_completion, if_neg (by simp)]
      exact congrArg (fun m : Talk Failure _ => (m { c with reader }).1) (if_pos hmark)
    rw [hrun]
    cases noWords (completion tag status text) with
    | none => exact ⟨_, rfl⟩
    | some words => exact ⟨_, _, rfl⟩

theorem length_le_flatMap_bytes (responses : List Response) :
    responses.length ≤ (responses.flatMap Response.bytes).length := by
  induction responses with
  | nil => exact le_rfl
  | cons r responses ih =>
    have hpos := List.length_pos_iff.2 r.isLast.1.ne_nil
    rw [List.flatMap_cons, Response.bytes]
    simp only [List.length_append, List.length_cons]
    omega

/-- The loop of `FETCH`, over the data and the completion line. -/
theorem readFetchResponse_completion (htext : ∀ c ∈ text, Text.isLineEnd c = false)
    {responses : List Response} (htag : ∀ r ∈ responses, ¬ tagOf tag <+: textOf r.bytes)
    (hbytes : c.reader.bytes =
      responses.flatMap Response.bytes ++ wire (completion tag status text)) :
    match responses.mapM Response.messages with
    | none => ∃ e, (readFetchResponse tag c).1.1 = .error e
    | some ls =>
        if noWords (completion tag status text) = none ∧ literalLength text = none then
          (readFetchResponse tag c).1.1 = .ok ls.flatten
        else ∃ e, (readFetchResponse tag c).1.1 = .error e := by
  have hlength := length_le_flatMap_bytes responses
  -- each response takes at least one byte, and the completion line a round of its own
  obtain ⟨fuel, hfuel⟩ : ∃ fuel, c.reader.bytes.length + 1 = fuel + 1 + responses.length := by
    refine ⟨c.reader.bytes.length - responses.length, ?_⟩
    rw [hbytes, List.length_append] at *
    omega
  have hrepeat : (readFetchResponse tag c).1 =
      (loop .diverged (fetchResponse tag) (fuel + 1 + responses.length) [] c).1 := by
    rw [← hfuel]
    rfl
  have hdata := loop_fetchResponse htag hbytes (fuel + 1) []
  rw [← hrepeat] at hdata
  cases hmessages : responses.mapM Response.messages with
  | none =>
    rw [hmessages] at hdata
    exact hdata
  | some ls =>
    rw [hmessages] at hdata
    obtain ⟨reader, hrest, -, hrun⟩ := hdata
    have hlast := run_fetchResponse_completion (c := { c with reader }) htext hrest ls.flatten
    rw [List.nil_append] at hrun
    simp only [hrun]
    split_ifs at hlast ⊢
    · obtain ⟨d, hresponse⟩ := hlast
      rw [loop_inr hresponse]
    · obtain ⟨e, d, hresponse⟩ := hlast
      exact ⟨e, by rw [loop_error hresponse]⟩

theorem mapM_lines_eq_none {lines : List (Untagged tag)} :
    (lines.map Untagged.line).mapM (fun l => (lineText l).toOption) = none ↔
      ¬ ∀ l ∈ lines, Utf8.decode l.line ≠ none := by
  rw [mapM_eq_none]
  push Not
  simp [lineText_eq_error]

theorem decode_of_mapM_lines {lines : List (Untagged tag)} {texts : List (List Char)}
    (h : (lines.map Untagged.line).mapM (fun l => (lineText l).toOption) = some texts) :
    ∀ l ∈ lines, Utf8.decode l.line ≠ none := by
  by_contra hdecode
  rw [← mapM_lines_eq_none, h] at hdecode
  cases hdecode

theorem noWords_completion_eq_none : noWords (completion tag status text) = none ↔
    status ≠ .no ∧ ¬ " NO ".toList <:+: ' ' :: text := by
  by_cases hstatus : status = .no
  · subst hstatus
    simp [noWords_completion_no]
  · rw [noWords_completion hstatus]
    simp [hstatus]

theorem isOk_examine_iff (htext : ∀ c ∈ text, Text.isLineEnd c = false)
    (lines : List (Untagged tag))
    (hbytes : c.reader.bytes =
      (Data.examine lines).bytes ++ wire (completion tag status text)) :
    (readExamineResponse tag c).1.1.isOk = true ↔
      (Data.examine lines).Acceptable ∧ noWords (completion tag status text) = none := by
  have hrun := rounds_completion (examineLine tag) (fun a text => (uidValidityOf text).or a)
    (fun a => a) (fun _ _ => rfl) htext lines hbytes none
  rw [isOk_readExamineResponse]
  cases htexts : (lines.map Untagged.line).mapM fun l => (lineText l).toOption with
  | none =>
    rw [htexts] at hrun
    obtain ⟨e, he⟩ := hrun
    simp [he, Data.Acceptable, mapM_lines_eq_none.1 htexts]
  | some texts =>
    -- the completion line gives no `UIDVALIDITY`, so one of the lines must
    have hdecode := decode_of_mapM_lines htexts
    have hvalidity : (∃ l ∈ lines, ∃ text, lineText l.line = .ok text ∧ uidValidityOf text ≠ none) ↔
        ∃ text ∈ texts, uidValidityOf text ≠ none := by
      simp only [mem_mapM htexts, List.mem_map, toOption_eq_some]
      constructor
      · rintro ⟨l, hl, text, htext, huid⟩
        exact ⟨text, ⟨l.line, ⟨l, hl, rfl⟩, htext⟩, huid⟩
      · rintro ⟨text, ⟨-, ⟨l, hl, rfl⟩, htext⟩, huid⟩
        exact ⟨l, hl, text, htext, huid⟩
    rw [htexts] at hrun
    simp only [uidValidityOf_completion, Option.none_or] at hrun
    simp only [Data.Acceptable, hvalidity]
    split_ifs at hrun with hwords
    · have hfound := foldl_or_eq_none (f := uidValidityOf) (l := texts) (a := none)
      rw [hrun, and_iff_left hwords, and_iff_right hdecode]
      simp only [Except.ok.injEq, ← Option.ne_none_iff_exists', ne_eq, hfound, true_and]
      push Not
      rfl
    · obtain ⟨e, he⟩ := hrun
      simp [he, hwords]

theorem isOk_search_iff (htext : ∀ c ∈ text, Text.isLineEnd c = false)
    (lines : List (Untagged tag))
    (hbytes : c.reader.bytes =
      (Data.search lines).bytes ++ wire (completion tag status text)) :
    (readSearchResponse tag c).1.1.isOk = true ↔
      (Data.search lines).Acceptable ∧ noWords (completion tag status text) = none := by
  have hrun := rounds_completion (searchLine tag)
    (fun uids line =>
      if "* SEARCH".toList.isPrefixOf line then
        uids ++ ((Text.splitWhitespace line).drop 2).filterMap (Text.parseUnsigned u32Max)
      else uids)
    (fun a => a) (fun _ _ => rfl) htext lines hbytes []
  rw [readSearchResponse]
  cases htexts : (lines.map Untagged.line).mapM fun l => (lineText l).toOption with
  | none =>
    rw [htexts] at hrun
    obtain ⟨e, he⟩ := hrun
    simp [he, Data.Acceptable, mapM_lines_eq_none.1 htexts]
  | some texts =>
    have hdecode : (Data.search lines).Acceptable := decode_of_mapM_lines htexts
    rw [htexts] at hrun
    by_cases hwords : noWords (completion tag status text) = none
    · simp only [if_pos hwords] at hrun
      rw [hrun]
      exact iff_of_true rfl ⟨hdecode, hwords⟩
    · simp only [if_neg hwords] at hrun
      obtain ⟨e, he⟩ := hrun
      simp [he, hwords]

theorem isOk_fetch_iff (htext : ∀ c ∈ text, Text.isLineEnd c = false)
    (responses : List (UntaggedResponse tag))
    (hbytes : c.reader.bytes =
      (Data.fetch responses).bytes ++ wire (completion tag status text)) :
    (readFetchResponse tag c).1.1.isOk = true ↔
      (Data.fetch responses).Acceptable ∧
        noWords (completion tag status text) = none ∧ literalLength text = none := by
  have htag : ∀ r ∈ responses.map UntaggedResponse.toResponse, ¬ tagOf tag <+: textOf r.bytes := by
    intro r hr
    obtain ⟨u, -, rfl⟩ := List.mem_map.1 hr
    exact u.untagged
  have hrun := readFetchResponse_completion htext htag hbytes
  have hacceptable : (Data.fetch responses).Acceptable ↔
      (responses.map UntaggedResponse.toResponse).mapM Response.messages ≠ none := by
    rw [ne_eq, mapM_eq_none]
    push Not
    simp [Data.Acceptable]
  rw [hacceptable]
  cases hmessages : (responses.map UntaggedResponse.toResponse).mapM Response.messages with
  | none =>
    rw [hmessages] at hrun
    obtain ⟨e, he⟩ := hrun
    simp [he]
  | some ls =>
    rw [hmessages] at hrun
    simp only at hrun
    split_ifs at hrun with hquiet
    · rw [hrun]
      simp [hquiet]
    · obtain ⟨e, he⟩ := hrun
      simp [he, hquiet]

/-- The reader returns if the data is acceptable and nothing in the completion line is mistaken. -/
theorem isOk_reading_iff (data : Data tag) (htext : ∀ c ∈ text, Text.isLineEnd c = false)
    (hbytes : c.reader.bytes = data.bytes ++ wire (completion tag status text)) :
    (data.reading.run tag c).1.1.isOk = true ↔
      data.Acceptable ∧ status ≠ .no ∧ data.Quiet text := by
  cases data with
  | examine lines =>
    show (Reading.forget (readExamineResponse tag) c).1.1.isOk = true ↔ _
    rw [run_forget, isOk_examine_iff htext lines hbytes, noWords_completion_eq_none]
    rfl
  | search lines =>
    show (Reading.forget (readSearchResponse tag) c).1.1.isOk = true ↔ _
    rw [run_forget, isOk_search_iff htext lines hbytes, noWords_completion_eq_none]
    rfl
  | fetch responses =>
    show (Reading.forget (readFetchResponse tag) c).1.1.isOk = true ↔ _
    rw [run_forget, isOk_fetch_iff htext responses hbytes, noWords_completion_eq_none, and_assoc]
    rfl

/-- The reader of a response fails just for a status that is not `OK`, exactly if the status is `NO`
or it is `OK` just when the data is acceptable and the text of the completion line is quiet. -/
theorem status_classified_iff (tag : ℕ) (data : Data tag) (status : Status) (text : LineText)
    (c : Conn)
    (hbytes : c.reader.bytes = data.bytes ++ wire (completion tag status text.chars)) :
    ((data.reading.run tag c).1.1.isOk = false ↔ status ≠ .ok) ↔
      status = .no ∨ (status = .ok ↔ data.Acceptable ∧ data.Quiet text.chars) := by
  have hok := isOk_reading_iff data text.noLineEnd hbytes
  rw [← Bool.not_eq_true, hok]
  cases status with
  | ok => simp
  | no => simp
  | bad => simp

end Classified

/-- What has arrived, and then the stream is closed. -/
def arrived (bytes : Bytes) : Conn := ⟨⟨bytes, [], none⟩, none, none, false⟩

theorem status_classified_search :
    let c := arrived (wire (completion 1 .bad ['?']))
    let data : Data 1 := .search []
    ((data.reading.run 1 c).1.1.isOk = false ↔ Status.bad ≠ .ok) ↔
      Status.bad = .no ∨ (Status.bad = .ok ↔ data.Acceptable ∧ data.Quiet ['?']) :=
  status_classified_iff 1 (.search []) .bad ⟨['?'], by decide⟩ (arrived _) rfl

/-- `BAD` is taken for success, and `OK` with ` NO ` in its text for a failure. -/
theorem status_misread :
    let bad : Conn := arrived (wire (completion 1 .bad ['?']))
    let ok : Conn := arrived (wire (completion 1 .ok ['N', 'O', ' ']))
    ¬ ((Reading.search.run 1 bad).1.1.isOk = false ↔ Status.bad ≠ .ok) ∧
      ¬ ((Reading.search.run 1 ok).1.1.isOk = false ↔ Status.ok ≠ .ok) := by
  decide

end EraseMe.Email.Imap
