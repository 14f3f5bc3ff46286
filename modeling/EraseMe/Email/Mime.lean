import EraseMe.Email.Parse
import EraseMe.Library.Hex
import EraseMe.Library.Occurrence
import EraseMe.Library.Utf8Text
import EraseMe.Library.Wire

/-!
# `email::smtp`: the octets of an outgoing message

`buildMimeAt` writes the headers and the single text part of a message.  SHA-256 and the random
octets of a generated message ID are parameters.

A header block that was written by `writeHeader` reads back as its fields (`readHeader_block`), and
the first empty line of a message is the one after its headers (`headerBlock_encode`); so
`readHeader` finds the fields that `buildMimeAt` wrote, and no others.
-/

namespace EraseMe.Email.Smtp

open Calendar Chrono Decimal Wire

/-- A message to send; `recipient` is its field `to`. -/
structure EmailMessage where
  recipient : String
  subject : String
  body : String
  cc : String
  bcc : String
  deriving DecidableEq, Repr

/-- Why a mail is not sent. -/
inductive SmtpError
  | missingFrom
  | emptyRecipient
  | messageIDGeneration
  | transport (error : String)
  deriving DecidableEq, Repr

/-! ### The date -/

/-- The names of the days of the week, from Sunday on. -/
def weekdayNames : List (List Char) :=
  ["Sun", "Mon", "Tue", "Wed", "Thu", "Fri", "Sat"].map String.toList

/-- The name of a day, counted from Thursday 1970-01-01. -/
def weekdayName (day : ℤ) : List Char := weekdayNames.getD ((day + 4) % 7).toNat []

/-- `%z`: the offset, to the nearest minute. -/
def formatOffset (offset : ℤ) : List Char :=
  let minutes := (offset.natAbs + 30) / 60
  (if offset < 0 then '-' else '+') :: (fixed 2 (minutes / 60) ++ fixed 2 (minutes % 60))

/-- The same instant elsewhere. -/
def withTimezone (now : OffsetDateTime) (localOffset : ℤ) : OffsetDateTime :=
  { now with offset := localOffset }

/-- `%a, %d %b %Y %H:%M:%S %z`. -/
def formatDate (t : OffsetDateTime) : List Char :=
  let secs := t.utc.secs + t.offset
  let date := civilFromDays (secs / 86400)
  let secOfDay := (secs % 86400).toNat
  let second := secOfDay % 60 + t.utc.nanos / nanosPerSecond
  weekdayName (secs / 86400) ++ ',' :: ' ' :: fixed 2 date.day ++
    ' ' :: monthNames.getD (date.month - 1) [] ++ ' ' :: formatYear date.year ++
    ' ' :: fixed 2 (secOfDay / 3600) ++ ':' :: fixed 2 (secOfDay / 60 % 60) ++
    ':' :: fixed 2 second ++ ' ' :: formatOffset t.offset

/-! ### The message -/

/-- The value of a header as it is written. -/
def filtered (value : List Char) : List Char := value.filter fun c => !Text.isLineEnd c

/-- Append a header field. -/
def writeHeader (output : List Char) (name : String) (value : List Char) : List Char :=
  output ++ (name.toList ++ ": ".toList ++ filtered value ++ "\r\n".toList)

section

variable (sha256 : Bytes → Bytes) (random : Option Bytes)

/-- The message ID: the given one, or one made of twelve random octets. -/
def generateMessageID (messageID : String) : Except SmtpError String :=
  if messageID = "" then
    match random with
    | none => .error .messageIDGeneration
    | some octets =>
        .ok (String.ofList ('<' :: Hex.encode octets ++ "@symeraseme>".toList))
  else .ok messageID

/-- What separates the parts. -/
def boundaryOf (messageID : String) : List Char :=
  "=_symeraseme_".toList ++ Hex.encode ((sha256 (Utf8.encode messageID)).take 8)

/-- All line ends alike. -/
def normalizeBody (body : String) : String :=
  Text.replace (Text.replace body "\r\n" "\n") "\r" "\n"

/-- The type of the whole. -/
def contentType (boundary : List Char) : List Char :=
  "multipart/mixed; boundary=\"".toList ++ boundary ++ ['"']

/-- Build a mail. -/
def buildMimeAt (message : EmailMessage) (sender : String) (now : OffsetDateTime)
    (localOffset : ℤ) (messageID : String) : Except SmtpError (Bytes × String) :=
  if Text.trim sender.toList = [] then .error .missingFrom
  else if Text.trim message.recipient.toList = [] then .error .emptyRecipient
  else do
    let messageID ← generateMessageID random messageID
    let boundary := boundaryOf sha256 messageID
    let mime := writeHeader [] "From" sender.toList
    let mime := writeHeader mime "To" message.recipient.toList
    let mime := if message.cc = "" then mime else writeHeader mime "Cc" message.cc.toList
    let mime := writeHeader mime "Subject" message.subject.toList
    let mime := writeHeader mime "Date" (formatDate (withTimezone now localOffset))
    let mime := writeHeader mime "Message-ID" messageID.toList
    let mime := writeHeader mime "MIME-Version" "1.0".toList
    let mime := writeHeader mime "Content-Type" (contentType boundary)
    let mime := mime ++ "\r\n--".toList ++ boundary
    let mime := mime ++ "\r\nContent-Type: text/plain; charset=utf-8\r\n".toList
    let mime := mime ++ "Content-Transfer-Encoding: 8bit\r\n\r\n".toList
    let mime := mime ++ (normalizeBody message.body).toList
    let mime := mime ++ "\r\n--".toList ++ boundary ++ "--\r\n".toList
    .ok (Utf8.encode (String.ofList mime), messageID)

end

/-- The octets up to the first empty line. -/
def headerBlock (mime : Bytes) : Bytes :=
  match Text.find [13, 10, 13, 10] mime with
  | some i => mime.take (i + 2)
  | none => mime

/-! ### Blocks of headers -/

/-- A name that can stand before the colon. -/
structure IsName (name : List Char) : Prop where
  ne_nil : name ≠ []
  colon : ':' ∉ name
  blank : ∀ c ∈ name, isBlank c = false
  line : ∀ c ∈ name, Text.isLineEnd c = false

instance (name : List Char) : Decidable (IsName name) :=
  decidable_of_iff (name ≠ [] ∧ ':' ∉ name ∧ (∀ c ∈ name, isBlank c = false) ∧
    ∀ c ∈ name, Text.isLineEnd c = false)
    ⟨fun ⟨a, b, c, d⟩ => ⟨a, b, c, d⟩, fun ⟨a, b, c, d⟩ => ⟨a, b, c, d⟩⟩

/-- A name and a value. -/
abbrev Field := List Char × List Char

/-- A header without the end of its line. -/
def headerLine (field : Field) : List Char := field.1 ++ ':' :: ' ' :: filtered field.2

/-- The fields in order. -/
def block : List Field → List Char
  | [] => []
  | field :: fields => headerLine field ++ '\r' :: '\n' :: block fields

/-- A value without line ends, and without the blanks around it. -/
def headerText (value : List Char) : List Char := trimSpaces (filtered value)

/-- The field as it reads back. -/
def received (field : Field) : Field := (field.1, headerText field.2)

@[simp] theorem writeHeader_eq (output : List Char) (name : String) (value : List Char) :
    writeHeader output name value = output ++ block [(name.toList, value)] := by
  simp [writeHeader, block, headerLine, show ": ".toList = [':', ' '] from rfl,
    show "\r\n".toList = ['\r', '\n'] from rfl]

theorem block_append (fields rest : List Field) :
    block (fields ++ rest) = block fields ++ block rest := by
  induction fields with
  | nil => rfl
  | cons field fields ih => simp [block, ih]

/-! ### Trimming -/

theorem trimSpaces_eq (s : List Char) : trimSpaces s = (s.dropWhile isBlank).rdropWhile isBlank :=
  rfl

theorem trimSpaces_rdropWhile (s : List Char) :
    trimSpaces (s.rdropWhile isBlank) = trimSpaces s := by
  rw [trimSpaces_eq, Text.dropWhile_rdropWhile, List.rdropWhile_idempotent, ← trimSpaces_eq]

theorem trimSpaces_cons {c : Char} (h : isBlank c = true) (s : List Char) :
    trimSpaces (c :: s) = trimSpaces s := by
  rw [trimSpaces_eq, trimSpaces_eq, List.dropWhile_cons_of_pos h]

/-! ### One line -/

section Line

variable {field : Field}

theorem not_mem_of_line {c d : Char} (hname : IsName field.1) (hd : Text.isLineEnd d = true)
    (h : c ∈ headerLine field) : c ≠ d := by
  rintro rfl
  simp only [headerLine, List.mem_append, List.mem_cons] at h
  rcases h with hc | rfl | rfl | hc
  · rw [hname.line c hc] at hd
    cases hd
  · cases hd
  · cases hd
  · rw [filtered, List.mem_filter] at hc
    simp [hd] at hc

theorem headerLine_cons (hname : IsName field.1) :
    ∃ c s, headerLine field = c :: s ∧ isBlank c = false := by
  obtain ⟨name, value⟩ := field
  cases name with
  | nil => exact absurd rfl hname.ne_nil
  | cons c name => exact ⟨c, _, rfl, hname.blank c List.mem_cons_self⟩

/-- A line without continuations splits at the colon after the name. -/
theorem fold_headerLine (hname : IsName field.1) :
    fold (headerLine field) [] =
      field.1 ++ ':' :: (' ' :: filtered field.2).rdropWhile isBlank := by
  obtain ⟨c, s, hline, hc⟩ := headerLine_cons hname
  have hstart : (headerLine field).dropWhile isBlank = headerLine field := by
    rw [hline, List.dropWhile_cons_of_neg (by simp [hc])]
  have hcolon : isBlank ':' = false := rfl
  rw [fold, List.foldl_nil, trimSpaces_eq, hstart, headerLine,
    Text.rdropWhile_append_cons hcolon]

theorem stripSuffixCr_append (s : List Char) : stripSuffixCr (s ++ ['\r']) = s := by
  simp [stripSuffixCr]

end Line

/-! ### The fields of a block -/

theorem lines_block {fields : List Field} (hnames : ∀ field ∈ fields, IsName field.1) :
    (Text.splitOn '\n' (block fields)).map stripSuffixCr = fields.map headerLine ++ [[]] := by
  induction fields with
  | nil => rfl
  | cons field fields ih =>
    rw [List.forall_mem_cons] at hnames
    have hnewline : '\n' ∉ headerLine field ++ ['\r'] := by
      rw [List.mem_append, List.mem_singleton]
      rintro (h | h)
      · exact not_mem_of_line hnames.1 rfl h rfl
      · cases h
    have hblock : block (field :: fields) =
        (headerLine field ++ ['\r']) ++ '\n' :: block fields := by
      simp [block]
    rw [hblock, Paths.splitOn_append_sep, Paths.splitOn_of_not_mem hnewline, List.map_append,
      ih hnames.2, List.map_singleton, stripSuffixCr_append]
    rfl

/-- No line of a block continues the one before it. -/
theorem takeWhile_isContinuation {fields : List Field} (hnames : ∀ field ∈ fields, IsName field.1) :
    (fields.map headerLine ++ [[]]).takeWhile isContinuation = [] := by
  cases fields with
  | nil => rfl
  | cons field fields =>
    obtain ⟨c, s, hline, hc⟩ := headerLine_cons (hnames field List.mem_cons_self)
    have hcont : isContinuation (headerLine field) = false := by
      rw [hline]
      simp [isContinuation, hc]
    rw [List.map_cons, List.cons_append, List.takeWhile_cons_of_neg (by simp [hcont])]

theorem readFields_lines {fields : List Field} (hnames : ∀ field ∈ fields, IsName field.1)
    {fuel : ℕ} (hfuel : fields.length < fuel) :
    readFields fuel (fields.map headerLine ++ [[]]) = .ok (fields.map received) := by
  induction fields generalizing fuel with
  | nil =>
    cases fuel with
    | zero => rfl
    | succ fuel => rfl
  | cons field fields ih =>
    obtain ⟨fuel, rfl⟩ : ∃ n, fuel = n + 1 := ⟨fuel - 1, by simp at hfuel; omega⟩
    rw [List.forall_mem_cons] at hnames
    obtain ⟨hname, hnames⟩ := hnames
    obtain ⟨c, s, hline, -⟩ := headerLine_cons hname
    have hnone := takeWhile_isContinuation hnames
    have hrest : (fields.map headerLine ++ [[]]).dropWhile isContinuation =
        fields.map headerLine ++ [[]] := by
      have happend := List.takeWhile_append_dropWhile (p := isContinuation)
        (l := fields.map headerLine ++ [[]])
      rwa [hnone, List.nil_append] at happend
    have hsplit := Text.splitOnce_append hname.colon ((' ' :: filtered field.2).rdropWhile isBlank)
    have hstep : readFields (fuel + 1) (headerLine field :: (fields.map headerLine ++ [[]])) =
        .ok (received field :: fields.map received) := by
      rw [hline, readFields, ← hline, hnone, fold_headerLine hname, hsplit, hrest,
        ih hnames (by simpa using hfuel)]
      · simp [Bind.bind, Except.bind, hname.ne_nil, received, headerText, trimSpaces_rdropWhile,
          trimSpaces_cons (show isBlank ' ' = true from rfl)]
      · simp
    exact hstep

/-- A block reads back as its fields. -/
theorem readHeader_block {fields : List Field} (hnames : ∀ field ∈ fields, IsName field.1) :
    readHeader (Utf8.encode (String.ofList (block fields))) = .ok (fields.map received) := by
  rw [readHeader, Utf8.lossy_encode, lines_block hnames]
  cases fields with
  | nil => rfl
  | cons field fields =>
    obtain ⟨c, s, hline, hc⟩ := headerLine_cons (hnames field List.mem_cons_self)
    have hcont : isContinuation (headerLine field) = false := by
      rw [hline]
      simp [isContinuation, hc]
    have hread := readFields_lines hnames (show (field :: fields).length <
      ((field :: fields).map headerLine ++ [[]]).length by simp)
    simpa [hcont] using hread

/-! ### The end of the headers -/

section End

variable {field : Field} {fields : List Field}

/-- The octets of a text. -/
def octets (text : List Char) : Bytes := Utf8.encode (String.ofList text)

theorem octets_append (s t : List Char) : octets (s ++ t) = octets s ++ octets t :=
  Utf8.encode_ofList_append s t

theorem octets_break (s : List Char) : octets ('\r' :: '\n' :: s) = 13 :: 10 :: octets s := by
  rw [octets, Utf8.encode_ofList_cons, Utf8.encode_ofList_cons]
  rfl

theorem octets_block_cons (field : Field) (fields : List Field) :
    octets (block (field :: fields)) =
      octets (headerLine field) ++ 13 :: 10 :: octets (block fields) := by
  rw [block, octets_append, octets_break]

/-- No carriage return is inside a line. -/
theorem cr_not_mem_octets (hname : IsName field.1) : 13 ∉ octets (headerLine field) := by
  intro h
  have hmem := Utf8.mem_of_mem_encode (by decide) h
  exact not_mem_of_line hname (show Text.isLineEnd '\r' = true from rfl) hmem rfl

/-- The first empty line comes after the last header. -/
theorem find_emptyLine (hnames : ∀ f ∈ field :: fields, IsName f.1) (s : Bytes) :
    ∃ i, Text.find [13, 10, 13, 10] (octets (block (field :: fields)) ++ 13 :: 10 :: s) = some i ∧
      i + 2 = (octets (block (field :: fields))).length := by
  induction fields generalizing field with
  | nil =>
    have hname := hnames field List.mem_cons_self
    have hapart : Text.Apart [13, 10, 13, 10] (octets (headerLine field))
        (13 :: 10 :: 13 :: 10 :: s) :=
      Text.apart_of_head (cr_not_mem_octets hname)
    have hself : Text.find [13, 10, 13, 10] (13 :: 10 :: 13 :: 10 :: s) = some 0 :=
      Text.find_self [13, 10, 13, 10] s
    have hblock : octets (block [field]) ++ 13 :: 10 :: s =
        octets (headerLine field) ++ 13 :: 10 :: 13 :: 10 :: s := by
      rw [octets_block_cons, List.append_assoc]
      rfl
    refine ⟨(octets (headerLine field)).length, ?_, ?_⟩
    · rw [hblock, Text.find_append hapart, hself, Option.map_some, Nat.zero_add]
    · rw [octets_block_cons, List.length_append]
      rfl
  | cons next fields ih =>
    have hname := hnames field List.mem_cons_self
    have hrest : ∀ f ∈ next :: fields, IsName f.1 := fun f hf =>
      hnames f (List.mem_cons_of_mem _ hf)
    obtain ⟨i, hfind, hlength⟩ := ih hrest
    -- the line after a line break starts with its name
    obtain ⟨b, r, hnext, hb⟩ : ∃ b r, octets (block (next :: fields)) = b :: r ∧ b ≠ 13 := by
      have hcr := cr_not_mem_octets (hrest next List.mem_cons_self)
      obtain ⟨c, t, hline, -⟩ := headerLine_cons (hrest next List.mem_cons_self)
      obtain ⟨b, r, hc⟩ := List.exists_cons_of_ne_nil (Utf8.encodeChar_ne_nil c)
      have hoctets : octets (headerLine next) = b :: (r ++ octets t) := by
        rw [hline, octets, Utf8.encode_ofList_cons, hc]
        rfl
      refine ⟨b, _, by rw [octets_block_cons, hoctets, List.cons_append], ?_⟩
      rintro rfl
      exact hcr (hoctets ▸ List.mem_cons_self)
    have hbreak : Text.Apart [13, 10, 13, 10] [13, 10]
        (octets (block (next :: fields)) ++ 13 :: 10 :: s) := by
      rw [hnext]
      refine Text.apart_cons ?_ (Text.apart_of_head (by decide))
      simp [hb.symm]
    have hapart : Text.Apart [13, 10, 13, 10] (octets (headerLine field) ++ [13, 10])
        (octets (block (next :: fields)) ++ 13 :: 10 :: s) :=
      (Text.apart_of_head (cr_not_mem_octets hname)).append hbreak
    have hblock : octets (block (field :: next :: fields)) ++ 13 :: 10 :: s =
        (octets (headerLine field) ++ [13, 10]) ++
          (octets (block (next :: fields)) ++ 13 :: 10 :: s) := by
      rw [octets_block_cons field]
      simp
    refine ⟨i + (octets (headerLine field) ++ [13, 10]).length, ?_, ?_⟩
    · rw [hblock, Text.find_append hapart, hfind, Option.map_some]
    · rw [octets_block_cons field, List.length_append, List.length_append]
      simp only [List.length_cons, List.length_nil]
      omega

theorem headerBlock_octets (hne : fields ≠ []) (hnames : ∀ f ∈ fields, IsName f.1) (s : Bytes) :
    headerBlock (octets (block fields) ++ 13 :: 10 :: s) = octets (block fields) := by
  cases fields with
  | nil => exact absurd rfl hne
  | cons field fields =>
    obtain ⟨i, hfind, hlength⟩ := find_emptyLine hnames s
    rw [headerBlock, hfind]
    simp only [hlength, List.take_left']

end End

/-! ### The message reads back -/

section Message

variable {sha256 : Bytes → Bytes} {random : Option Bytes} {messageID : String}

/-- The headers of a message, as they are given to `writeHeader`. -/
def mimeFields (sha256 : Bytes → Bytes) (message : EmailMessage) (sender : String)
    (now : OffsetDateTime) (localOffset : ℤ) (messageID : String) : List Field :=
  [("From".toList, sender.toList), ("To".toList, message.recipient.toList)] ++
    (if message.cc = "" then [] else [("Cc".toList, message.cc.toList)]) ++
    [("Subject".toList, message.subject.toList),
      ("Date".toList, formatDate (withTimezone now localOffset)),
      ("Message-ID".toList, messageID.toList), ("MIME-Version".toList, "1.0".toList),
      ("Content-Type".toList, contentType (boundaryOf sha256 messageID))]

theorem mimeFields_names (sha256 : Bytes → Bytes) (message : EmailMessage) (sender : String)
    (now : OffsetDateTime) (localOffset : ℤ) (id : String) :
    ∀ f ∈ mimeFields sha256 message sender now localOffset id, IsName f.1 := by
  intro f hf
  have hname : f.1 ∈ ["From", "To", "Cc", "Subject", "Date", "Message-ID", "MIME-Version",
      "Content-Type"].map String.toList := by
    unfold mimeFields at hf
    split_ifs at hf
    all_goals
      simp only [List.cons_append, List.nil_append, List.mem_cons, List.not_mem_nil, or_false] at hf
      rcases hf with rfl | rfl | rfl | rfl | rfl | rfl | rfl | rfl
      all_goals simp
  have hall : ∀ name ∈ ["From", "To", "Cc", "Subject", "Date", "Message-ID", "MIME-Version",
      "Content-Type"].map String.toList, IsName name := by decide
  exact hall f.1 hname

theorem generateMessageID_of_given (h : messageID ≠ "") :
    generateMessageID random messageID = .ok messageID := by
  unfold generateMessageID
  rw [if_neg h]

theorem exists_generateMessageID (h : messageID = "" → random ≠ none) :
    ∃ id, generateMessageID random messageID = .ok id := by
  by_cases hid : messageID = ""
  · obtain ⟨octets, rfl⟩ := Option.ne_none_iff_exists'.1 (h hid)
    refine ⟨String.ofList ('<' :: Hex.encode octets ++ "@symeraseme>".toList), ?_⟩
    unfold generateMessageID
    rw [if_pos hid]
  · exact ⟨messageID, generateMessageID_of_given hid⟩

/-- The calls of `writeHeader` write the block of the fields. -/
theorem block_mimeFields (message : EmailMessage) (sender : String) (now : OffsetDateTime)
    (localOffset : ℤ) (id : String) :
    block (mimeFields sha256 message sender now localOffset id) =
      writeHeader (writeHeader (writeHeader (writeHeader (writeHeader
        (if message.cc = "" then
          writeHeader (writeHeader [] "From" sender.toList) "To" message.recipient.toList
        else writeHeader (writeHeader (writeHeader [] "From" sender.toList) "To"
          message.recipient.toList) "Cc" message.cc.toList) "Subject" message.subject.toList)
        "Date" (formatDate (withTimezone now localOffset))) "Message-ID" id.toList)
        "MIME-Version" "1.0".toList) "Content-Type" (contentType (boundaryOf sha256 id)) := by
  unfold mimeFields
  split_ifs
  all_goals
    simp only [writeHeader_eq, List.nil_append, ← block_append]
    rfl

/-- The octets of a message: its headers, an empty line and the text part. -/
theorem buildMimeAt_eq {message : EmailMessage} {sender id : String}
    (hsender : Text.trim sender.toList ≠ []) (hrecipient : Text.trim message.recipient.toList ≠ [])
    (hid : generateMessageID random messageID = .ok id) (now : OffsetDateTime) (localOffset : ℤ) :
    ∃ part, buildMimeAt sha256 random message sender now localOffset messageID =
      .ok (octets (block (mimeFields sha256 message sender now localOffset id)) ++ 13 :: 10 :: part,
        id) := by
  refine ⟨octets ("--".toList ++ boundaryOf sha256 id ++
    "\r\nContent-Type: text/plain; charset=utf-8\r\n".toList ++
    "Content-Transfer-Encoding: 8bit\r\n\r\n".toList ++ (normalizeBody message.body).toList ++
    "\r\n--".toList ++ boundaryOf sha256 id ++ "--\r\n".toList), ?_⟩
  rw [← octets_break, ← octets_append]
  unfold buildMimeAt
  rw [if_neg hsender, if_neg hrecipient, hid, block_mimeFields]
  have hdashes : "\r\n--".toList = '\r' :: '\n' :: "--".toList := rfl
  simp only [Bind.bind, Except.bind, octets, hdashes, List.append_assoc, List.cons_append]

/-- The headers of a message read back: one field for each header that was written, in order, with
the text of its value. -/
theorem readHeader_buildMimeAt (sha256 : Bytes → Bytes) (random : Option Bytes)
    (message : EmailMessage) (sender : String) (now : OffsetDateTime) (localOffset : ℤ)
    (messageID : String) (hsender : Text.trim sender.toList ≠ [])
    (hrecipient : Text.trim message.recipient.toList ≠ [])
    (hrandom : messageID = "" → random ≠ none) :
    ∃ mime id, buildMimeAt sha256 random message sender now localOffset messageID = .ok (mime, id) ∧
      (messageID ≠ "" → id = messageID) ∧
      readHeader (headerBlock mime) = .ok
        ([("From".toList, headerText sender.toList),
            ("To".toList, headerText message.recipient.toList)] ++
          (if message.cc = "" then [] else [("Cc".toList, headerText message.cc.toList)]) ++
          [("Subject".toList, headerText message.subject.toList),
            ("Date".toList, headerText (formatDate (withTimezone now localOffset))),
            ("Message-ID".toList, headerText id.toList),
            ("MIME-Version".toList, headerText "1.0".toList),
            ("Content-Type".toList, headerText (contentType (boundaryOf sha256 id)))]) := by
  obtain ⟨id, hid⟩ := exists_generateMessageID hrandom
  obtain ⟨part, hbuild⟩ := buildMimeAt_eq hsender hrecipient hid now localOffset
  refine ⟨_, id, hbuild, fun hgiven => ?_, ?_⟩
  · rw [generateMessageID_of_given hgiven] at hid
    cases hid
    rfl
  · have hnames := mimeFields_names sha256 message sender now localOffset id
    rw [headerBlock_octets (by simp [mimeFields]) hnames]
    refine (readHeader_block hnames).trans (congrArg _ ?_)
    unfold mimeFields
    split_ifs
    all_goals rfl

/-- The SHA-256 of `<1@a>`. -/
def sampleDigest : Bytes :=
  [142, 72, 148, 158, 19, 113, 205, 191, 10, 122, 97, 144, 242, 51, 78, 228, 113, 253, 80,
    4, 155, 97, 106, 153, 209, 250, 41, 150, 31, 179, 23, 236]

/-- A subject with a line break in it does not make a second header. -/
theorem injected_subject_reads_back :
    ∃ mime, buildMimeAt (fun _ => sampleDigest) none
        ⟨"a@b", "hi\r\nBcc: c@d ", "text", "\n", ""⟩ "me@here" ⟨epoch, 0⟩ 5430 "<1@a>" =
          .ok (mime, "<1@a>") ∧
      readHeader (headerBlock mime) = .ok
        [("From".toList, "me@here".toList), ("To".toList, "a@b".toList), ("Cc".toList, []),
          ("Subject".toList, "hiBcc: c@d".toList),
          ("Date".toList, "Thu, 01 Jan 1970 01:30:30 +0131".toList),
          ("Message-ID".toList, "<1@a>".toList), ("MIME-Version".toList, "1.0".toList),
          ("Content-Type".toList,
            "multipart/mixed; boundary=\"=_symeraseme_8e48949e1371cdbf\"".toList)] := by
  obtain ⟨mime, id, hbuild, hid, hread⟩ := readHeader_buildMimeAt (fun _ => sampleDigest) none
    ⟨"a@b", "hi\r\nBcc: c@d ", "text", "\n", ""⟩ "me@here" ⟨epoch, 0⟩ 5430 "<1@a>"
    (by decide) (by decide) (by decide)
  cases hid (by decide)
  exact ⟨mime, hbuild, hread.trans (congrArg _ (by decide))⟩

end Message

end EraseMe.Email.Smtp
