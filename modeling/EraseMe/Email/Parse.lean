import EraseMe.Email.Types

/-!
# `email::parse`: header and encoded-word decoding

`readHeader` reads a header block into its fields, `decodeHeader` decodes encoded words, and
`parseFetchedMessage` builds the message of a FETCH result.  Texts are lists of characters; the
offsets of the source are byte offsets that always fall on character boundaries, so that cutting
the list before a character is the same.
-/

namespace EraseMe.Email

open Chrono Text

/-! ### The header block -/

/-- The line without its return. -/
def stripSuffixCr (line : List Char) : List Char :=
  if line.getLast? = some '\r' then line.dropLast else line

/-- A blank or a tab. -/
def isBlank (c : Char) : Bool := c = ' ' ∨ c = '\t'

/-- Without blanks at both ends. -/
def trimSpaces (s : List Char) : List Char :=
  ((s.dropWhile isBlank).reverse.dropWhile isBlank).reverse

/-- A line that continues the one before it. -/
def isContinuation (line : List Char) : Bool := line.head?.any isBlank

/-- One header line with its continuations. -/
def fold (line : List Char) (continuations : List (List Char)) : List Char :=
  continuations.foldl (fun folded line => folded ++ ' ' :: trimSpaces line) (trimSpaces line)

/-- The fields of the lines up to an empty one; `fuel` is the number of lines. -/
def readFields : ℕ → List (List Char) → Except String (List (List Char × List Char))
  | 0, _ => .ok []
  | _, [] => .ok []
  | _, [] :: _ => .ok []
  | fuel + 1, line :: lines =>
      let folded := fold line (lines.takeWhile isContinuation)
      match splitOnce ':' folded with
      | none => .error ("malformed header line: " ++ String.ofList folded)
      | some (key, value) => do
          let fields ← readFields fuel (lines.dropWhile isContinuation)
          .ok (if key = [] then fields else (key, trimSpaces value) :: fields)

/-- The fields of a header. -/
def readHeader (header : List UInt8) : Except String (List (List Char × List Char)) :=
  let lines := (splitOn '\n' (Utf8.lossy header)).map stripSuffixCr
  match lines with
  | first :: _ =>
      if isContinuation first then .error ("malformed initial line: " ++ String.ofList first)
      else readFields lines.length lines
  | [] => .ok []

/-- The value of a field. -/
def headerValue (fields : List (List Char × List Char)) (name : String) : Option (List Char) :=
  (fields.find? fun field => eqIgnoreAsciiCase field.1 name.toList).map Prod.snd

/-! ### Encoded words -/

/-- The text before the first occurrence of two characters, and the text after them. -/
def splitAtPair (a b : Char) : List Char → Option (List Char × List Char)
  | c :: d :: s =>
      if c = a ∧ d = b then some ([], s)
      else (splitAtPair a b (d :: s)).map fun (before, after) => (c :: before, after)
  | _ => none

/-- The value of a digit. -/
def fromHex (c : Char) : Option ℕ :=
  if '0' ≤ c ∧ c ≤ '9' then some (c.toNat - 48)
  else if 'A' ≤ c ∧ c ≤ 'F' then some (c.toNat - 55)
  else if 'a' ≤ c ∧ c ≤ 'f' then some (c.toNat - 87)
  else none

/-- Undo quoted-printable. -/
def quotedPrintableDecode : List Char → Option (List UInt8)
  | [] => some []
  | '_' :: s => (quotedPrintableDecode s).map (32 :: ·)
  | '=' :: a :: b :: s => do
      let high ← fromHex a
      let low ← fromHex b
      let rest ← quotedPrintableDecode s
      some (UInt8.ofNat (high * 16 + low) :: rest)
  | c :: s =>
      if c ≠ '=' ∧ ((' ' ≤ c ∧ c ≤ '~') ∨ c = '\n' ∨ c = '\r' ∨ c = '\t') then
        (quotedPrintableDecode s).map (UInt8.ofNat c.toNat :: ·)
      else none

/-- Undo either encoding. -/
def decodeWord (encoding : Char) (text : List Char) : Option (List UInt8) :=
  if encoding = 'B' ∨ encoding = 'b' then Base64.decode Base64.standard text
  else if encoding = 'Q' ∨ encoding = 'q' then quotedPrintableDecode text
  else none

/-- Octets as text. -/
def convertCharset (charset : List Char) (content : List UInt8) : Option (List Char) :=
  if eqIgnoreAsciiCase charset "utf-8".toList then some (Utf8.lossyPerByte content)
  else if eqIgnoreAsciiCase charset "iso-8859-1".toList then
    some (content.map fun b => Char.ofNat b.toNat)
  else if eqIgnoreAsciiCase charset "us-ascii".toList then
    some (content.map fun b => if b ≥ 0x80 then Utf8.replacement else Char.ofNat b.toNat)
  else none

/-- More than blanks. -/
def hasNonWhitespace (s : List Char) : Bool :=
  s.any fun c => !(c = ' ' ∨ c = '\t' ∨ c = '\n' ∨ c = '\r')

/-- One encoded word of the header: the text before it, its charset, encoding and text, and the
text after it. -/
def nextWord (header : List Char) :
    Option (List Char × List Char × Char × List Char × List Char) := do
  let (before, s) ← splitAtPair '=' '?' header
  let (charset, s) ← splitOnce '?' s
  match s with
  | encoding :: '?' :: s =>
      if encoding.toNat < 128 ∧ s ≠ [] then do
        let (text, after) ← splitAtPair '?' '=' s
        some (before, charset, encoding, text, after)
      else none
  | _ => none

/-- The loop of `decode_header`; every round removes an encoded word. -/
def decodeWords : ℕ → Bool → List Char → Option (List Char)
  | 0, _, header => some header
  | fuel + 1, betweenWords, header =>
      match nextWord header with
      | none => some header
      | some (before, charset, encoding, text, after) =>
          match decodeWord encoding text with
          | none =>
              (decodeWords fuel false after).map
                ((header.take (header.length - after.length)) ++ ·)
          | some content => do
              let converted ← convertCharset charset content
              let rest ← decodeWords fuel true after
              let kept := if before ≠ [] ∧ (!betweenWords || hasNonWhitespace before) then before
                else []
              some (kept ++ converted ++ rest)

/-- Decode the encoded words of a header value; `none` asks the caller to keep the raw value. -/
def decodeHeader (value : List Char) : Option (List Char) :=
  match splitAtPair '=' '?' value with
  | none => some value
  | some (before, _) =>
      (decodeWords value.length false (value.drop before.length)).map (before ++ ·)

/-! ### Dates -/

/-- The months. -/
def months : List (List Char) :=
  ["jan", "feb", "mar", "apr", "may", "jun", "jul", "aug", "sep", "oct", "nov", "dec"].map
    String.toList

/-- The number of a month. -/
def monthNumber (name : List Char) : Option ℕ :=
  let i := months.idxOf (name.map Char.toLower)
  if i < 12 then some (i + 1) else none

/-- A zone in seconds east of UTC. -/
def parseZone (zone : List Char) : Option ℤ :=
  let numeric (sign : ℤ) : Option ℤ := match zone with
    | _ :: a :: b :: c :: d :: _ => do
        let hours ← parseSigned [a, b]
        let minutes ← parseSigned [c, d]
        let offset := sign * (hours * 3600 + minutes * 60)
        if -86400 < offset ∧ offset < 86400 then some offset else none
    | _ => none
  match zone with
  | [] => none
  | '+' :: _ => numeric 1
  | '-' :: _ => numeric (-1)
  | _ => if (zone.filter isAsciiAlphabetic).length = 3 then some 0 else none

/-- The year of a date: four digits, or a two-digit year from 1969 on. -/
def parseYear (text : List Char) : Option ℤ :=
  if text.length = 4 ∧ text.all Char.isDigit then parseSigned text
  else (parseSigned text).map fun short => if short ≥ 69 then 1900 + short else 2000 + short

/-- Hours, minutes and seconds. -/
def parseClock (text : List Char) : Option (ℕ × ℕ × ℕ) :=
  match splitOn ':' text with
  | hour :: minute :: rest => do
      let hour ← parseUnsigned u32Max hour
      let minute ← parseUnsigned u32Max minute
      let second ← match rest with
        | second :: _ => parseUnsigned u32Max second
        | [] => some 0
      some (hour, minute, second)
  | _ => none

/-- `[Mon, ]D Mon [YY]YY HH:MM[:SS] zone`. -/
def parseDate (text : List Char) : Option OffsetDateTime := do
  let text := trim text
  let rest := match splitOnce ',' text with
    | some (_, rest) => trimStart rest
    | none => text
  match splitWhitespace rest with
  | day :: month :: year :: clock :: zone :: _ => do
      let day ← parseUnsigned u32Max day
      let month ← monthNumber month
      let year ← parseYear year
      let (hour, minute, second) ← parseClock clock
      let offset ← parseZone zone
      let date : Calendar.Date := ⟨year, month, day⟩
      if date.Valid ∧ hour < 24 ∧ minute < 60 ∧ second < 60 then do
        let seconds := Calendar.daysFromCivil date * 86400 + (hour * 3600 + minute * 60 + second : ℕ)
        let naive ← DateTime.ofParts? seconds 0
        let utc ← DateTime.ofParts? (naive.secs - offset) 0
        some ⟨utc, offset⟩
      else none
  | _ => none

/-! ### Messages -/

/-- The first match of `<[^>]+>`. -/
def firstMessageId : List Char → List Char
  | [] => []
  | c :: s =>
      let inner := s.takeWhile (· != '>')
      if c = '<' ∧ inner ≠ [] ∧ '>' ∈ s then '<' :: inner ++ ['>'] else firstMessageId s

/-- A header field decoded, or as it stands. -/
def decodedField (fields : List (List Char × List Char)) (name : String) : List Char :=
  match headerValue fields name with
  | none => []
  | some raw => if raw = [] then [] else (decodeHeader raw).getD raw

/-- The thread of a message: the first reference, else the message it answers, else itself. -/
def threadOf (fields : List (List Char × List Char)) : List Char :=
  let references := firstMessageId (decodedField fields "References")
  if references ≠ [] then references
  else
    let inReplyTo := firstMessageId (decodedField fields "In-Reply-To")
    if inReplyTo ≠ [] then inReplyTo
    else firstMessageId (decodedField fields "Message-ID")

/-- The date of a message. -/
def dateOf (fields : List (List Char × List Char)) (internalDate : Option DateTime) :
    Option OffsetDateTime :=
  let header := match headerValue fields "Date" with
    | some value => if value = [] then none else parseDate value
    | none => none
  header <|> internalDate.map fun t => ⟨t, 0⟩

/-- Read a message. -/
def parseFetchedMessage (fetched : FetchedMessage) : Except String Message := do
  let fields ← readHeader fetched.header
  .ok
    { id := toString fetched.uid
      subject := String.ofList (decodedField fields "Subject")
      sender := String.ofList (decodedField fields "From")
      recipient := String.ofList (decodedField fields "To")
      date := dateOf fields fetched.internalDate
      body := String.ofList (Utf8.lossyPerByte fetched.body)
      flags := fetched.flags.filter (· ≠ [])
      messageId := String.ofList (decodedField fields "Message-ID")
      threadId := String.ofList (threadOf fields)
      imapUid := fetched.uid }

/-- A parsed message keeps the UID it was fetched under. -/
theorem parseFetchedMessage_imapUid {fetched : FetchedMessage} {message : Message}
    (h : parseFetchedMessage fetched = .ok message) : message.imapUid = fetched.uid := by
  unfold parseFetchedMessage at h
  cases hf : readHeader fetched.header with
  | error e => rw [hf] at h; cases h
  | ok fields =>
    rw [hf] at h
    cases h
    rfl

end EraseMe.Email
