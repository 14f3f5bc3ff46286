import EraseMe.Email.ImapAnswers

/-!
# `FETCH` on the wire and back

A server sends messages as `* n FETCH (UID u FLAGS (…) BODY[HEADER] {…} BODY[TEXT] {…})`.  Header and
flags are read back as they were sent.  The body is looked for after the first `BODY[TEXT]` of the
response, which may be in the header: then the literal after it is taken (`fetched_iff`).
-/

namespace EraseMe.Email.Imap

open Wire Wire.Talk

/-! ### What a server sends -/

/-- A character of an atom. -/
def isAtomChar (c : Char) : Bool :=
  '!' ≤ c ∧ c ≤ '~' ∧ c ∉ ['(', ')', '{', '%', '*', '"', '\\', ']']

/-- An atom, for a system flag with a backslash. -/
def IsFlag (s : List Char) : Prop :=
  ∃ atom, atom ≠ [] ∧ (∀ c ∈ atom, isAtomChar c = true) ∧ (s = atom ∨ s = '\\' :: atom)

/-- A message as it is sent. -/
structure SentMessage where
  number : ℕ
  uid : ℕ
  flags : List (List Char)
  header : Bytes
  body : Bytes
  uid_le : uid ≤ u32Max
  isFlag : ∀ flag ∈ flags, IsFlag flag
  header_le : header.length ≤ maxBodyBytes
  body_le : body.length ≤ maxBodyBytes

/-- A number as text. -/
def digits (n : ℕ) : List Char := Nat.toDigits 10 n

/-- The announcement of a literal. -/
def announce (s : Bytes) : List Char := ' ' :: '{' :: digits s.length ++ ['}']

namespace SentMessage

/-- The start of the response. -/
def numbering (m : SentMessage) : List Char :=
  "* ".toList ++ digits m.number ++ " FETCH (UID ".toList ++ digits m.uid

theorem numbering_eq (m : SentMessage) : m.numbering =
    "* ".toList ++ digits m.number ++ " FETCH (UID ".toList ++ digits m.uid := rfl

/-- The flags between blanks. -/
def flagList (m : SentMessage) : List Char := [' '].intercalate m.flags

/-- The first line up to the header. -/
def opening (m : SentMessage) : List Char :=
  m.numbering ++ " FLAGS (".toList ++ m.flagList ++ ") ".toList

/-- The line before the header. -/
def headerLine (m : SentMessage) : List Char :=
  m.opening ++ "BODY[HEADER]".toList ++ announce m.header

/-- The line before the body. -/
def bodyLine (m : SentMessage) : List Char := " BODY[TEXT]".toList ++ announce m.body

theorem bodyLine_eq (m : SentMessage) :
    m.bodyLine = " BODY[TEXT]".toList ++ announce m.body := by
  unfold bodyLine
  rfl

/-- What comes after the header. -/
def rest (m : SentMessage) : Bytes := wire m.bodyLine ++ m.body ++ wire [')']

/-- The response as octets. -/
def bytes (m : SentMessage) : Bytes := wire m.headerLine ++ m.header ++ m.rest

/-- The message as the client is to return it. -/
def fetched (m : SentMessage) : FetchedMessage where
  uid := m.uid
  header := m.header
  body := m.body
  flags := some (m.flags.map String.ofList)
  internalDate := none

end SentMessage

/-! ### Literals -/

/-- The first brace in `s` opens a literal that is `body`. -/
def HoldsLiteral (s body : Bytes) : Prop :=
  ∃ x number text y z, s = x ++ 123 :: (number ++ 125 :: (y ++ (13 :: 10 :: (body ++ z)))) ∧
    123 ∉ x ∧ 125 ∉ number ∧ Text.Apart [13, 10] y (13 :: 10 :: (body ++ z)) ∧
    Utf8.decode number = some text ∧ Text.parseUnsigned usizeMax text = some body.length

/-- The literal that the first brace opens. -/
def sectionLiteral (s : Bytes) : Option Bytes := do
  let rest ← Text.after [123] s
  if 125 ∈ rest then
    let digits ← Utf8.decode (rest.takeWhile (· ≠ 125))
    let len ← Text.parseUnsigned usizeMax digits
    let rest ← Text.after [13, 10] ((rest.dropWhile (· ≠ 125)).drop 1)
    if len ≤ rest.length then some (rest.take len) else none
  else none

theorem extractLiteral_eq (response : Bytes) (marker : String) :
    extractLiteral response marker =
      (Text.after (Utf8.encode marker) response).bind sectionLiteral := rfl

/-- What is read between the braces, and after them. -/
theorem sectionLiteral_append {x number r : Bytes} (hx : 123 ∉ x) (hnumber : 125 ∉ number) :
    sectionLiteral (x ++ 123 :: (number ++ 125 :: r)) =
      (do
        let digits ← Utf8.decode number
        let len ← Text.parseUnsigned usizeMax digits
        let rest ← Text.after [13, 10] r
        if len ≤ rest.length then some (rest.take len) else none) := by
  have hfirst : Text.after [123] (x ++ 123 :: (number ++ 125 :: r)) = some (number ++ 125 :: r) :=
    (Text.after_append (Text.apart_of_head hx)).trans (Text.after_self [123] _)
  have hne : ∀ b ∈ number, decide (b ≠ 125) = true := fun b hb => by
    simpa using fun h : b = 125 => hnumber (h ▸ hb)
  simp only [sectionLiteral, hfirst, Option.bind_eq_bind, Option.bind_some]
  rw [if_pos (by simp), List.takeWhile_append_of_pos hne, List.dropWhile_append_of_pos hne]
  simp

theorem sectionLiteral_eq_some {s body : Bytes} :
    sectionLiteral s = some body ↔ HoldsLiteral s body := by
  constructor
  · intro h
    cases hfirst : Text.after [123] s with
    | none => simp [sectionLiteral, hfirst] at h
    | some rest =>
      by_cases hclose : 125 ∈ rest
      · obtain ⟨x, rfl, hx⟩ := Text.after_eq_some hfirst
        obtain ⟨number, r, rfl, hnumber⟩ := List.eq_append_cons_of_mem hclose
        have hsplit := sectionLiteral_append (r := r) (Text.not_mem_of_apart hx) hnumber
        rw [List.singleton_append, hsplit] at h
        simp only [Option.bind_eq_bind, Option.bind_eq_some_iff] at h
        obtain ⟨text, htext, len, hlen, q, hq, h⟩ := h
        obtain ⟨y, rfl, hy⟩ := Text.after_eq_some hq
        split_ifs at h with hle
        cases h
        have hrest : q = q.take len ++ q.drop len := (List.take_append_drop len q).symm
        refine ⟨x, number, text, y, q.drop len, ?_, Text.not_mem_of_apart hx, hnumber, ?_, htext, ?_⟩
        · rw [← hrest]
          rfl
        · rw [← hrest]
          exact hy
        · rw [hlen, List.length_take, Nat.min_eq_left hle]
      · simp [sectionLiteral, hfirst, hclose] at h
  · rintro ⟨x, number, text, y, z, rfl, hx, hnumber, hy, htext, hlength⟩
    have hline : Text.after [13, 10] (y ++ (13 :: 10 :: (body ++ z))) = some (body ++ z) :=
      (Text.after_append hy).trans (Text.after_self [13, 10] _)
    rw [sectionLiteral_append hx hnumber]
    simp [htext, hlength, hline]

/-- The header does not speak for the body: no brace follows the first `BODY[TEXT]` in it, or that
brace opens a literal that happens to be the body. -/
def SentMessage.Honest (m : SentMessage) : Prop :=
  ∀ s, Text.after (Utf8.encode "BODY[TEXT]") m.header = some s → 123 ∈ s →
    HoldsLiteral (s ++ m.rest) m.body

/-! ### Announcements -/

section Announce

variable {a : List Char} {s t : Bytes}

theorem literalLength_announce (h : s.length ≤ maxBodyBytes) :
    literalLength (a ++ announce s) = some s.length := by
  have hbrace : '{' ∉ digits s.length ++ ['}'] := by
    rw [List.mem_append, not_or]
    exact ⟨Text.not_mem_toDigits rfl, by decide⟩
  have hsplit : a ++ announce s = (a ++ [' ']) ++ '{' :: (digits s.length ++ ['}']) := by
    simp [announce]
  have hlast : (a ++ announce s).getLast? = some '}' := by
    rw [announce, ← List.append_assoc, List.getLast?_concat]
  have hnumber : Text.parseUnsigned usizeMax (digits s.length) = some s.length :=
    Text.parseUnsigned_toDigits (h.trans (by decide))
  rw [literalLength, if_pos hlast, hsplit, Text.rsplitOnce_self hbrace]
  simp [hnumber]

theorem wire_announce :
    wire (a ++ announce s) = Utf8.encode (String.ofList a) ++
      (32 :: 123 :: (Utf8.encode (String.ofList (digits s.length)) ++ 125 :: [13, 10])) := by
  simp [wire, announce, Utf8.encode, String.utf8EncodeChar]

/-- What is announced is held. -/
theorem holdsLiteral_announce (ha : 123 ∉ Utf8.encode (String.ofList a))
    (h : s.length ≤ maxBodyBytes) : HoldsLiteral (wire (a ++ announce s) ++ (s ++ t)) s := by
  refine ⟨Utf8.encode (String.ofList a) ++ [32], Utf8.encode (String.ofList (digits s.length)),
    digits s.length, [], t, ?_, ?_, ?_, ?_, Utf8.decode_encode _, ?_⟩
  · rw [wire_announce]
    simp
  · rw [List.mem_append, not_or]
    exact ⟨ha, by decide⟩
  · intro hmem
    exact Text.not_mem_toDigits rfl (Utf8.mem_of_mem_encode (by decide) hmem)
  · intro v hv hne
    exact absurd (List.suffix_nil.1 hv) hne
  · exact Text.parseUnsigned_toDigits (h.trans (by decide))

theorem HoldsLiteral.append {body : Bytes} (h : HoldsLiteral t body) (hs : 123 ∉ s) :
    HoldsLiteral (s ++ t) body := by
  obtain ⟨x, number, text, y, z, rfl, hx, hrest⟩ := h
  refine ⟨s ++ x, number, text, y, z, by rw [List.append_assoc], ?_, hrest⟩
  rw [List.mem_append, not_or]
  exact ⟨hs, hx⟩

end Announce

/-! ### The lines of a message -/

instance (mark : List Char) : Decidable (IsMark mark) :=
  inferInstanceAs (Decidable (∀ c ∈ mark, c.toNat < 128 ∧ Text.isLineEnd c = false))

theorem isMark_append {a b : List Char} : IsMark (a ++ b) ↔ IsMark a ∧ IsMark b := by
  simp only [IsMark, List.forall_mem_append]

theorem isMark_digits (n : ℕ) : IsMark (digits n) := by
  intro c hc
  have hdigit := Text.isDigit_of_mem_toDigits hc
  rw [Decimal.isDigit_iff] at hdigit
  refine ⟨by omega, ?_⟩
  simp only [Text.isLineEnd, decide_eq_false_iff_not, not_or]
  constructor
  · rintro rfl
    exact absurd hdigit (by decide)
  · rintro rfl
    exact absurd hdigit (by decide)

/-- What is in a flag: visible characters, and no bracket that closes. -/
theorem mem_flag {flag : List Char} (h : IsFlag flag) {c : Char} (hc : c ∈ flag) :
    33 ≤ c.toNat ∧ c.toNat ≤ 126 ∧ c ≠ ')' ∧ c ≠ ']' := by
  obtain ⟨atom, -, hatom, hflag⟩ := h
  have hchar (hmem : c ∈ atom) : 33 ≤ c.toNat ∧ c.toNat ≤ 126 ∧ c ≠ ')' ∧ c ≠ ']' := by
    have hallowed := hatom c hmem
    simp only [isAtomChar, decide_eq_true_eq, List.mem_cons, not_or] at hallowed
    obtain ⟨hlow, hhigh, -, hparen, -, -, -, -, -, hbracket, -⟩ := hallowed
    exact ⟨Char.le_def.1 hlow, Char.le_def.1 hhigh, hparen, hbracket⟩
  rcases hflag with rfl | rfl
  · exact hchar hc
  · rcases List.mem_cons.1 hc with rfl | hmem
    · decide
    · exact hchar hmem

theorem IsFlag.isWord {flag : List Char} (h : IsFlag flag) : Text.IsWord flag := by
  constructor
  · obtain ⟨atom, hne, -, rfl | rfl⟩ := h
    · exact hne
    · simp
  · intro c hc
    obtain ⟨hlow, hhigh, -⟩ := mem_flag h hc
    simp only [Text.isWhitespace, decide_eq_false_iff_not]
    omega

theorem IsFlag.isMark {flag : List Char} (h : IsFlag flag) : IsMark flag := by
  intro c hc
  obtain ⟨hlow, hhigh, -⟩ := mem_flag h hc
  refine ⟨by omega, ?_⟩
  simp only [Text.isLineEnd, decide_eq_false_iff_not, not_or]
  constructor
  · rintro rfl
    exact absurd hlow (by decide)
  · rintro rfl
    exact absurd hlow (by decide)

theorem mem_intercalate {α : Type} {sep : α} {l : List (List α)} {a : α}
    (h : a ∈ [sep].intercalate l) : a = sep ∨ ∃ x ∈ l, a ∈ x := by
  induction l with
  | nil => simp at h
  | cons x l ih =>
    cases l with
    | nil => exact .inr ⟨x, by simpa using h⟩
    | cons y l =>
      rw [List.intercalate_cons_cons, List.mem_append, List.mem_append, List.mem_singleton] at h
      rcases h with (h | h) | h
      · exact .inr ⟨x, List.mem_cons_self, h⟩
      · exact .inl h
      · rcases ih h with h | ⟨z, hz, h⟩
        · exact .inl h
        · exact .inr ⟨z, List.mem_cons_of_mem _ hz, h⟩

namespace SentMessage

variable (m : SentMessage)

theorem isMark_flagList : IsMark m.flagList := by
  intro c hc
  rcases mem_intercalate hc with rfl | ⟨flag, hflag, hmem⟩
  · decide
  · exact (m.isFlag flag hflag).isMark c hmem

theorem not_mem_flagList {c : Char} (hspace : c ≠ ' ') (h : c = ')' ∨ c = ']') :
    c ∉ m.flagList := by
  intro hc
  rcases mem_intercalate hc with hc | ⟨flag, hflag, hmem⟩
  · exact hspace hc
  · obtain ⟨-, -, hparen, hbracket⟩ := mem_flag (m.isFlag flag hflag) hmem
    exact h.elim hparen hbracket

theorem isMark_opening : IsMark m.opening := by
  simp only [opening, numbering_eq, isMark_append]
  refine ⟨⟨⟨⟨⟨⟨?_, isMark_digits _⟩, ?_⟩, isMark_digits _⟩, ?_⟩, m.isMark_flagList⟩, ?_⟩
  · decide
  · decide
  · decide
  · decide

theorem bracket_not_mem_opening : ']' ∉ m.opening := by
  simp only [opening, numbering_eq, List.mem_append, not_or]
  have hdigits (n : ℕ) : ']' ∉ digits n := Text.not_mem_toDigits rfl
  have hflags : ']' ∉ m.flagList := m.not_mem_flagList (by decide) (.inr rfl)
  exact ⟨⟨⟨⟨⟨⟨by decide, hdigits _⟩, by decide⟩, hdigits _⟩, by decide⟩, hflags⟩, by decide⟩

theorem isMark_announce (s : Bytes) : IsMark (announce s) := by
  have hsplit : announce s = [' ', '{'] ++ digits s.length ++ ['}'] := by simp [announce]
  rw [hsplit, isMark_append, isMark_append]
  exact ⟨⟨by decide, isMark_digits _⟩, by decide⟩

theorem isMark_headerLine : IsMark m.headerLine := by
  rw [headerLine, isMark_append, isMark_append]
  exact ⟨⟨m.isMark_opening, by decide⟩, isMark_announce _⟩

theorem isMark_bodyLine : IsMark m.bodyLine := by
  rw [bodyLine_eq, isMark_append]
  exact ⟨by decide, isMark_announce m.body⟩

/-- The message as lines with literals. -/
def response : Response where
  parts := [(wire m.headerLine, m.header), (wire m.bodyLine, m.body)]
  last := wire [')']
  isLine := by
    have hheader := fun c hc => (m.isMark_headerLine c hc).2
    have hbody := fun c hc => (m.isMark_bodyLine c hc).2
    simp only [List.mem_cons, List.not_mem_nil, or_false, forall_eq_or_imp, forall_eq]
    refine ⟨⟨isLine_wire hheader, ?_⟩, isLine_wire hbody, ?_⟩
    · rw [textOf_wire hheader]
      exact literalLength_announce m.header_le
    · rw [textOf_wire hbody]
      exact literalLength_announce m.body_le
  isLast := by
    have hlast : ∀ c ∈ [')'], Text.isLineEnd c = false := by decide
    refine ⟨isLine_wire hlast, ?_⟩
    rw [textOf_wire hlast]
    rfl

theorem bytes_response : m.response.bytes = m.bytes := by
  simp [Response.bytes, response, partOctets, bytes, rest]

theorem not_tooLong_response : ¬ m.response.TooLong := by
  simp only [Response.TooLong, response, List.mem_cons, List.not_mem_nil, or_false,
    exists_eq_or_imp, exists_eq_left, not_or, not_lt]
  exact ⟨m.header_le, m.body_le⟩

/-- The text of the response starts with the opening. -/
theorem exists_textOf_response : ∃ t, textOf m.response.bytes = m.opening ++ t := by
  have hprefix : m.opening <+: textOf m.response.bytes := by
    rw [textOf, prefix_trimLineEnd m.isMark_opening, bytes_response, bytes, headerLine, wire]
    simp only [List.append_assoc, Utf8.encode_ofList_append]
    rw [Utf8.lossy_encode_append]
    exact List.prefix_append _ _
  obtain ⟨t, ht⟩ := hprefix
  exact ⟨t, ht.symm⟩

/-! ### Reading a message back -/

theorem isFetch_response : m.response.IsFetch := by
  obtain ⟨t, ht⟩ := m.exists_textOf_response
  rw [Response.IsFetch, ht]
  constructor
  · rw [List.isPrefixOf_iff_prefix]
    simp only [opening, numbering_eq, List.append_assoc]
    exact List.prefix_append _ _
  · rw [Text.contains_iff]
    have hsplit : " FETCH (UID ".toList = " FETCH ".toList ++ "(UID ".toList := by decide
    refine ⟨"* ".toList ++ digits m.number, "(UID ".toList ++ (digits m.uid ++
      (" FLAGS (".toList ++ (m.flagList ++ (") ".toList ++ t)))), ?_⟩
    simp only [opening, numbering_eq, hsplit, List.append_assoc]

theorem not_tag_prefix_response (tag : ℕ) : ¬ tagOf tag <+: textOf m.response.bytes := by
  obtain ⟨t, ht⟩ := m.exists_textOf_response
  rw [ht]
  rintro ⟨r, hr⟩
  simp only [opening, numbering_eq, tagOf, List.append_assoc, List.cons_append] at hr
  have hhead := congrArg List.head? hr
  simp at hhead

instance (w : List Char) : Decidable (Text.IsWord w) :=
  inferInstanceAs (Decidable (w ≠ [] ∧ ∀ c ∈ w, Text.isWhitespace c = false))

theorem isWord_digits (n : ℕ) : Text.IsWord (digits n) := Text.isWord_toDigits n

theorem uidOfFetchLine_opening (t : List Char) : uidOfFetchLine (m.opening ++ t) = m.uid := by
  have hwords : Text.splitWhitespace (m.opening ++ t) =
      ['*'] :: digits m.number :: "FETCH".toList :: "(UID".toList :: digits m.uid ::
        Text.splitWhitespace ("FLAGS (".toList ++ m.flagList ++ ") ".toList ++ t) := by
    have hsplit : m.opening ++ t = ['*'] ++ ' ' ::
        (digits m.number ++ ' ' :: ("FETCH".toList ++ ' ' ::
        ("(UID".toList ++ ' ' :: (digits m.uid ++ ' ' ::
          ("FLAGS (".toList ++ m.flagList ++ ") ".toList ++ t))))) := by
      simp [opening, numbering_eq]
    have hword (w : List Char) (h : w = ['*'] ∨ w = "FETCH".toList ∨ w = "(UID".toList) :
        Text.IsWord w := by
      rcases h with rfl | rfl | rfl
      · decide
      · decide
      · decide
    rw [hsplit, Text.splitWhitespace_append (hword _ (.inl rfl)) rfl,
      Text.splitWhitespace_append (isWord_digits _) rfl,
      Text.splitWhitespace_append (hword _ (.inr (.inl rfl))) rfl,
      Text.splitWhitespace_append (hword _ (.inr (.inr rfl))) rfl,
      Text.splitWhitespace_append (isWord_digits _) rfl]
  have hnumber : (digits m.number).dropWhile (· = '(') ≠ "UID".toList := by
    intro h
    have hmem : 'U' ∈ digits m.number := by
      refine (List.dropWhile_suffix (l := digits m.number) (· = '(')).subset ?_
      rw [h]
      decide
    exact Text.not_mem_toDigits rfl hmem
  have hfrom : (Text.splitWhitespace (m.opening ++ t)).dropWhile
        (fun token => token.dropWhile (· = '(') ≠ "UID".toList) =
      "(UID".toList :: digits m.uid ::
        Text.splitWhitespace ("FLAGS (".toList ++ m.flagList ++ ") ".toList ++ t) := by
    rw [hwords, List.dropWhile_cons_of_pos (by decide),
      List.dropWhile_cons_of_pos (by simpa using hnumber),
      List.dropWhile_cons_of_pos (by decide), List.dropWhile_cons_of_neg (by decide)]
  have huid : Text.parseUnsigned u32Max (digits m.uid) = some m.uid :=
    Text.parseUnsigned_toDigits m.uid_le
  rw [uidOfFetchLine, hfrom]
  simp [huid]

theorem flagsOfFetchLine_opening (t : List Char) :
    flagsOfFetchLine (m.opening ++ t) = some (m.flags.map String.ofList) := by
  have hsplit : m.opening ++ t = (("* ".toList ++ digits m.number ++ " ".toList) ++
      'F' :: ("ETCH (UID ".toList ++ digits m.uid ++ " ".toList)) ++
        ("FLAGS (".toList ++ (m.flagList ++ ')' :: ' ' :: t)) := by
    simp [opening, numbering_eq]
  have hdigits (n : ℕ) : 'F' ∉ digits n := Text.not_mem_toDigits rfl
  -- The `F` of `FETCH` is the only one before the flags.
  have hbefore : 'F' ∉ "* ".toList ++ digits m.number ++ " ".toList := by
    simp only [List.mem_append, not_or]
    exact ⟨⟨by decide, hdigits _⟩, by decide⟩
  have hafter : 'F' ∉ "ETCH (UID ".toList ++ digits m.uid ++ " ".toList := by
    simp only [List.mem_append, not_or]
    exact ⟨⟨by decide, hdigits _⟩, by decide⟩
  have hpattern : "FLAGS (".toList = ['F', 'L', 'A', 'G', 'S', ' ', '('] := by decide
  have hflags : Text.after "FLAGS (".toList (m.opening ++ t) =
      some (m.flagList ++ ')' :: ' ' :: t) := by
    rw [hsplit, Text.after_append, Text.after_self]
    rw [hpattern]
    exact (Text.apart_of_head hbefore).append (Text.apart_cons (by simp) (Text.apart_of_head hafter))
  have hparen : ')' ∉ m.flagList := m.not_mem_flagList (by decide) (.inl rfl)
  have hne : ∀ c ∈ m.flagList, (c != ')') = true := fun c hc => by
    rw [bne_iff_ne]
    rintro rfl
    exact hparen hc
  have hwords : Text.splitWhitespace m.flagList = m.flags :=
    Text.splitWhitespace_intercalate fun flag hflag => (m.isFlag flag hflag).isWord
  rw [flagsOfFetchLine, hflags]
  simp only [Option.bind_eq_bind, Option.bind_some, Text.splitOnce]
  rw [if_pos (by simp), List.takeWhile_append_of_pos hne]
  simp [hwords]

/-- What is left of the response after a marker for which all before it is apart. -/
theorem bytes_eq : m.bytes = Utf8.encode (String.ofList m.opening) ++
    (Utf8.encode "BODY[HEADER]" ++ (Utf8.encode (String.ofList (announce m.header ++ ['\r', '\n'])) ++
      (m.header ++ m.rest))) := by
  have hmarker :
      Utf8.encode "BODY[HEADER]" = Utf8.encode (String.ofList "BODY[HEADER]".toList) := rfl
  rw [bytes, headerLine, wire, hmarker]
  simp only [List.append_assoc, Utf8.encode_ofList_append]

theorem apart_opening (marker : Bytes) (hbracket : 93 ∈ marker) (hspace : 32 ∉ marker) (s : Bytes) :
    Text.Apart marker (Utf8.encode (String.ofList m.opening)) s := by
  obtain ⟨before, hbefore⟩ : ∃ before, m.opening = before ++ [' '] :=
    ⟨m.numbering ++ " FLAGS (".toList ++ m.flagList ++ [')'], by simp [opening]⟩
  have hopening := m.bracket_not_mem_opening
  rw [hbefore] at hopening ⊢
  rw [Utf8.encode_ofList_append]
  refine Text.apart_of_stranger hbracket (fun hmem => hopening ?_) hspace
  exact List.mem_append_left _ (Utf8.mem_of_mem_encode (by decide) hmem)

theorem extractLiteral_header : extractLiteral m.bytes "BODY[HEADER]" = some m.header := by
  have hapart := m.apart_opening (Utf8.encode "BODY[HEADER]") (by decide) (by decide)
  rw [extractLiteral_eq, bytes_eq, Text.after_append (hapart _), Text.after_self, Option.bind_some,
    sectionLiteral_eq_some]
  exact holdsLiteral_announce (a := []) (by simp [Utf8.encode]) m.header_le

/-- The section for the body is looked for in the header first. -/
theorem extractLiteral_body : extractLiteral m.bytes "BODY[TEXT]" =
    (Text.after (Utf8.encode "BODY[TEXT]") (m.header ++ m.rest)).bind sectionLiteral := by
  have hapart := m.apart_opening (Utf8.encode "BODY[TEXT]") (by decide) (by decide)
  have hline : Text.Apart (Utf8.encode "BODY[TEXT]") (Utf8.encode "BODY[HEADER]" ++
      Utf8.encode (String.ofList (announce m.header ++ ['\r', '\n']))) (m.header ++ m.rest) := by
    have hsplit : Utf8.encode (String.ofList (announce m.header ++ ['\r', '\n'])) =
        Utf8.encode (String.ofList (announce m.header ++ ['\r'])) ++ [10] := by
      rw [show ['\r', '\n'] = ['\r'] ++ ['\n'] from rfl, ← List.append_assoc,
        Utf8.encode_ofList_append]
      rfl
    rw [hsplit, ← List.append_assoc]
    -- There is no `X` in the line of the header.
    have hdigits : 'X' ∉ digits m.header.length := Text.not_mem_toDigits rfl
    have hX : 'X' ∉ announce m.header ++ ['\r'] := by simp [announce, hdigits]
    refine Text.apart_of_stranger (c := 88) (by decide) ?_ (by decide)
    rw [List.mem_append, not_or]
    exact ⟨by decide, fun hmem => hX (Utf8.mem_of_mem_encode (by decide) hmem)⟩
  rw [extractLiteral_eq, bytes_eq, Text.after_append (hapart _), ← List.append_assoc,
    Text.after_append hline]

theorem rest_eq : m.rest =
    32 :: (Utf8.encode "BODY[TEXT]" ++ (wire ([] ++ announce m.body) ++ (m.body ++ wire [')']))) := by
  have hsplit : " BODY[TEXT]".toList = [' '] ++ "BODY[TEXT]".toList := by simp
  have hmarker : Utf8.encode "BODY[TEXT]" = Utf8.encode (String.ofList "BODY[TEXT]".toList) := rfl
  have hspace : Utf8.encode (String.ofList [' ']) = [32] := rfl
  rw [rest, bodyLine_eq, hsplit, hmarker]
  simp only [wire, List.append_assoc, Utf8.encode_ofList_append, List.nil_append, hspace]
  rw [List.singleton_append]

theorem holdsLiteral_rest : HoldsLiteral m.rest m.body := by
  have hbrace : 123 ∉ Utf8.encode (String.ofList " BODY[TEXT]".toList) := by
    intro hmem
    have hchar := Utf8.mem_of_mem_encode (by decide) hmem
    simp at hchar
  have hrest : m.rest = wire m.bodyLine ++ (m.body ++ wire [')']) := by
    rw [rest, List.append_assoc]
  rw [hrest, bodyLine_eq]
  exact holdsLiteral_announce hbrace m.body_le

theorem extractLiteral_body_iff :
    extractLiteral m.bytes "BODY[TEXT]" = some m.body ↔ m.Honest := by
  rw [extractLiteral_body, Honest]
  cases hafter : Text.after (Utf8.encode "BODY[TEXT]") m.header with
  | none =>
    have hapart : Text.Apart (Utf8.encode "BODY[TEXT]") (m.header ++ [32])
        (Utf8.encode "BODY[TEXT]" ++ (wire ([] ++ announce m.body) ++ (m.body ++ wire [')']))) := by
      refine (Text.apart_of_not_infix (Text.after_eq_none.1 hafter) (by decide)).append ?_
      exact Text.apart_of_head (by decide)
    have hrest : m.header ++ m.rest = (m.header ++ [32]) ++
        (Utf8.encode "BODY[TEXT]" ++ (wire ([] ++ announce m.body) ++ (m.body ++ wire [')']))) := by
      rw [rest_eq, List.append_assoc, List.singleton_append]
    rw [hrest, Text.after_append hapart, Text.after_self, Option.bind_some, sectionLiteral_eq_some]
    refine iff_of_true (holdsLiteral_announce (by simp [Utf8.encode]) m.body_le) ?_
    exact fun s h => by cases h
  | some s =>
    rw [Text.after_append_of_some hafter, Option.bind_some, sectionLiteral_eq_some]
    constructor
    · intro h t ht _
      cases ht
      exact h
    · intro h
      by_cases hbrace : 123 ∈ s
      · exact h s rfl hbrace
      · exact m.holdsLiteral_rest.append hbrace

/-- What the client makes of the message: all of it, with what it takes for the body. -/
theorem messages_response : m.response.messages =
    (extractLiteral m.bytes "BODY[TEXT]").map fun body => [{ m.fetched with body }] := by
  obtain ⟨t, ht⟩ := m.exists_textOf_response
  rw [Response.messages, if_neg m.not_tooLong_response, if_pos m.isFetch_response, ht,
    m.bytes_response, fetchedOf, m.extractLiteral_header]
  cases extractLiteral m.bytes "BODY[TEXT]" with
  | none => rfl
  | some body =>
    simp only [m.uidOfFetchLine_opening, m.flagsOfFetchLine_opening]
    rfl

theorem messages_response_iff : m.response.messages = some [m.fetched] ↔ m.Honest := by
  rw [messages_response, ← extractLiteral_body_iff]
  cases extractLiteral m.bytes "BODY[TEXT]" with
  | none => simp
  | some body => simp [fetched]

end SentMessage

/-- All messages are made out as they are exactly if each of them is. -/
theorem mapM_messages_iff {messages : List SentMessage} :
    (∃ ls, (messages.map SentMessage.response).mapM Response.messages = some ls ∧
      ls.flatten = messages.map SentMessage.fetched) ↔ ∀ m ∈ messages, m.Honest := by
  simp only [Result.mapM_eq_some, List.map_map]
  induction messages with
  | nil => simp
  | cons m messages ih =>
    rw [List.forall_mem_cons, ← ih, ← m.messages_response_iff, List.map_cons, Function.comp_apply]
    constructor
    · rintro ⟨ls, hls, hflatten⟩
      obtain ⟨l, ls, rfl⟩ : ∃ l ls', ls = l :: ls' := by
        cases ls with
        | nil => simp at hls
        | cons l ls => exact ⟨l, ls, rfl⟩
      rw [List.map_cons, List.cons.injEq] at hls
      have hone : ∃ x, l = [x] := by
        have hl := hls.1
        rw [m.messages_response, Option.map_eq_some_iff] at hl
        obtain ⟨body, -, hbody⟩ := hl
        exact ⟨_, hbody.symm⟩
      obtain ⟨x, rfl⟩ := hone
      rw [List.flatten_cons, List.singleton_append, List.map_cons, List.cons.injEq] at hflatten
      rw [← hflatten.1]
      exact ⟨hls.1, ls, hls.2, hflatten.2⟩
    · rintro ⟨hm, ls, hls, hflatten⟩
      refine ⟨[m.fetched] :: ls, ?_, ?_⟩
      · rw [hm, hls, List.map_cons]
      · rw [List.flatten_cons, hflatten, List.map_cons, List.singleton_append]

/-- The messages are read back exactly if no header speaks for its body and the completion line is
quiet. -/
theorem fetched_iff (tag : ℕ) (messages : List SentMessage) (text : LineText) (c : Conn)
    (hbytes : c.reader.bytes =
      messages.flatMap SentMessage.bytes ++ wire (completion tag .ok text.chars)) :
    (readFetchResponse tag c).1.1 = .ok (messages.map SentMessage.fetched) ↔
      (∀ m ∈ messages, m.Honest) ∧
        ¬ " NO ".toList <:+: ' ' :: text.chars ∧ literalLength text.chars = none := by
  have hresponses : (messages.map SentMessage.response).flatMap Response.bytes =
      messages.flatMap SentMessage.bytes := by
    simp only [List.flatMap_map, SentMessage.bytes_response]
  have htag : ∀ r ∈ messages.map SentMessage.response, ¬ tagOf tag <+: textOf r.bytes := by
    intro r hr
    obtain ⟨m, -, rfl⟩ := List.mem_map.1 hr
    exact m.not_tag_prefix_response tag
  rw [← hresponses] at hbytes
  have hrun := readFetchResponse_completion text.noLineEnd htag hbytes
  have hwords : noWords (completion tag .ok text.chars) = none ↔
      ¬ " NO ".toList <:+: ' ' :: text.chars := noWords_completion (by decide)
  rw [← mapM_messages_iff, ← hwords]
  cases hmessages : (messages.map SentMessage.response).mapM Response.messages with
  | none =>
    rw [hmessages] at hrun
    obtain ⟨e, he⟩ := hrun
    simp [he]
  | some ls =>
    rw [hmessages] at hrun
    simp only at hrun
    split_ifs at hrun with hquiet
    · rw [hrun, and_iff_left hquiet]
      simp
    · obtain ⟨e, he⟩ := hrun
      simp [he, hquiet]

/-- A message with a header that names a section of its own. -/
def forged : SentMessage where
  number := 1
  uid := 1
  flags := []
  header := Utf8.encode "BODY[TEXT] \x7b0\x7d\r\n"
  body := [120]
  uid_le := by decide
  isFlag := by simp
  header_le := by decide
  body_le := by decide

theorem fetched_forged :
    let c := arrived ([forged].flatMap SentMessage.bytes ++ wire (completion 1 .ok ['k']))
    (readFetchResponse 1 c).1.1 = .ok ([forged].map SentMessage.fetched) ↔
      (∀ m ∈ [forged], m.Honest) ∧
        ¬ " NO ".toList <:+: ' ' :: ['k'] ∧ literalLength ['k'] = none :=
  fetched_iff 1 [forged] ⟨['k'], by decide⟩ (arrived _) (List.append_nil _)

/-- The body that was sent is not the one that is returned. -/
theorem forged_body_lost :
    let c := arrived ([forged].flatMap SentMessage.bytes ++ wire (completion 1 .ok ['k']))
    (readFetchResponse 1 c).1.1 = .ok [{ forged.fetched with body := [] }] ∧
      (readFetchResponse 1 c).1.1 ≠ .ok ([forged].map SentMessage.fetched) := by
  decide +kernel

end EraseMe.Email.Imap
