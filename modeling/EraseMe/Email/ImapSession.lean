import EraseMe.Email.Imap
import Mathlib.Data.List.Sort

/-!
# `email::imap::client`: select, search, fetch and close

Each command takes the next tag, except that a range that is not one, and an empty list to fetch,
send nothing.  `ask` is one command, `converse` a session of them.
-/

namespace EraseMe.Email.Imap

open Wire Wire.Talk

/-! ### Arguments -/

/-- `char::encode_utf16`, high octets first. -/
def utf16Octets (c : Char) : Bytes :=
  let unit (n : ℕ) : Bytes := [UInt8.ofNat (n / 256), UInt8.ofNat (n % 256)]
  let n := c.toNat
  if n < 65536 then unit n
  else unit (55296 + (n - 65536) / 1024) ++ unit (56320 + (n - 65536) % 1024)

/-- The octets of the characters that are not printable, as one shifted part. -/
def shifted (octets : Bytes) : List Char :=
  if octets = [] then []
  else '&' :: ((Base64.encode Base64.standard false octets).map fun c => if c = '/' then ',' else c)
    ++ ['-']

/-- A folder in modified UTF-7. -/
def mailboxText : Bytes → List Char → List Char
  | octets, [] => shifted octets
  | octets, c :: folder =>
      if ' ' ≤ c ∧ c ≤ '~' then
        shifted octets ++ (if c = '&' then ['&', '-'] else [c]) ++ mailboxText [] folder
      else mailboxText (octets ++ utf16Octets c) folder

/-- `INBOX` as it is, and every other name quoted. -/
def mailboxArgument (folder : String) : String :=
  if Text.eqIgnoreAsciiCase folder.toList "INBOX".toList then folder
  else
    let quoted := (mailboxText [] folder.toList).flatMap fun c =>
      if c = '\\' ∨ c = '"' then ['\\', c] else [c]
    "\"" ++ String.ofList quoted ++ "\""

/-- The error of a bad range. -/
def badSequence (part : List Char) : Failure :=
  imapFailure ("invalid UID range: imap: bad sequence set value \"" ++ String.ofList part ++ "\"")

/-- A number or a star. -/
def isBound (s : List Char) : Bool := s = ['*'] || s.all Char.isDigit

/-- Check one range. -/
def checkPart (part : List Char) : Except Failure Unit :=
  let part := Text.trim part
  if part = [] then .error (badSequence [])
  else if ':' ∈ part then
    let bounds := Text.splitOn ':' part
    if bounds.length = 2 ∧ bounds.all isBound then .ok () else .error (badSequence part)
  else if isBound part then .ok ()
  else .error (badSequence part)

/-- Check all ranges. -/
def validateUidRange (range : String) : Except Failure Unit :=
  if range = "" then .error (badSequence [])
  else (Text.splitOn ',' range.toList).forM checkPart

/-- A range as text. -/
def rangeText (first last : ℕ) : String :=
  if first = last then toString first else toString first ++ ":" ++ toString last

/-- The ranges of sorted numbers; the first one is from `first` to `last` so far. -/
def ranges (first last : ℕ) : List ℕ → List String
  | [] => [rangeText first last]
  | uid :: uids =>
      if uid = last + 1 then ranges first uid uids
      else rangeText first last :: ranges uid uid uids

/-- Sorted and without repetition, as ranges. -/
def collapseUids (uids : List ℕ) : String :=
  match uids.insertionSort (· ≤ ·) with
  | [] => ""
  | uid :: uids => String.intercalate "," (ranges uid uid uids)

/-! ### Select and search -/

/-- The words after a `NO` in the answer to a command. -/
def noWords (line : List Char) : Option String :=
  (Text.after " NO ".toList line).map fun rest => String.ofList (Text.trim rest)

/-- The value of a line `* … [UIDVALIDITY n]`. -/
def uidValidityOf (line : List Char) : Option ℕ := do
  let rest ← Text.stripPrefix "* ".toList line
  let rest ← Text.after "[UIDVALIDITY ".toList rest
  let (number, _) ← Text.splitOnce ']' rest
  Text.parseUnsigned u32Max number

/-- One line of the answer. -/
def examineLine (tag : ℕ) (uidValidity : Option ℕ) (line : List Char) :
    Talk Failure (Option ℕ ⊕ Option ℕ) :=
  let uidValidity := (uidValidityOf line).or uidValidity
  if (tagOf tag).isPrefixOf line then
    match noWords line with
    | some words => fail (imapFailure words)
    | none => pure (.inr uidValidity)
  else pure (.inl uidValidity)

/-- Open a folder for reading. -/
def select (tag : ℕ) (folder : String) : Talk Failure ℕ := do
  writeCommand tag ("EXAMINE " ++ mailboxArgument folder)
  match ← repeatedly (round (examineLine tag)) none with
  | some uidValidity => pure uidValidity
  | none => fail (imapFailure "folder select failed: no UIDVALIDITY")

/-- One line of the answer. -/
def searchLine (tag : ℕ) (uids : List ℕ) (line : List Char) :
    Talk Failure (List ℕ ⊕ List ℕ) :=
  let uids :=
    if "* SEARCH".toList.isPrefixOf line then
      uids ++ ((Text.splitWhitespace line).drop 2).filterMap (Text.parseUnsigned u32Max)
    else uids
  if (tagOf tag).isPrefixOf line then
    match noWords line with
    | some words => fail (imapFailure words)
    | none => pure (.inr uids)
  else pure (.inl uids)

/-- Search a range of UIDs. -/
def searchUid (tag : ℕ) (range : String) : Talk Failure (List ℕ) := do
  ofExcept (validateUidRange range)
  writeCommand tag ("UID SEARCH CHARSET UTF-8 UID " ++ range)
  repeatedly (round (searchLine tag)) []

/-! ### Fetch -/

/-- An error in a body. -/
def fetchFailure (text : String) : Failure := imapFailure ("read fetched body failed: " ++ text)

/-- The next line as octets. -/
def octetsOf (r : Reader) : Except Failure Bytes × Reader :=
  match r.readUntil none with
  | (.ok line, r) => (.ok line, r)
  | (.error error, r) => (.error (readFailure error), r)

/-- Read a line as octets. -/
def readOctets : Talk Failure Bytes := receive octetsOf

/-- The largest 64-bit number. -/
def usizeMax : ℕ := 18446744073709551615

/-- The length of a literal that follows the line. -/
def literalLength (line : List Char) : Option ℕ := do
  if line.getLast? = some '}' then
    let (_, rest) ← Text.rsplitOnce '{' line
    Text.parseUnsigned usizeMax rest.dropLast
  else none

/-- The longest body. -/
def maxBodyBytes : ℕ := 65536

/-- Read so many bytes and drop them, in parts. -/
def discard : ℕ → ℕ → Reader → Reader
  | 0, _, r => r
  | fuel + 1, n, r =>
      if n = 0 then r
      else match r.readExact (min n 1024) with
        | (.ok _, r) => discard fuel (n - min n 1024) r
        | (.error _, r) => r

/-- Read a body of a known length. -/
def boundedBody (len : ℕ) (r : Reader) : Except Failure Bytes × Reader :=
  if len > maxBodyBytes then
    (.error (fetchFailure "IMAP body section exceeds 65536 bytes"), discard len len r)
  else match r.readExact len with
    | (.ok body, r) => (.ok body, r)
    | (.error error, r) => (.error (.message ("IMAP read body failed: " ++ error)), r)

/-- A line of a response, with the literal after it. -/
def responsePart (assembled : Bytes) : Talk Failure (Bytes ⊕ Bytes) := do
  let line ← readOctets
  if line = [] then fail (fetchFailure "connection closed")
  else match literalLength (Text.trimLineEnd (Utf8.lossy line)) with
    | some len => do
        let literal ← receive (boundedBody len)
        pure (.inl (assembled ++ line ++ literal))
    | none => pure (.inr (assembled ++ line))

/-- Read one response. -/
def readResponseBytes : Talk Failure Bytes := repeatedly responsePart []

/-- The literal after a marker in a response. -/
def extractLiteral (response : Bytes) (marker : String) : Option Bytes := do
  let rest ← Text.after (Utf8.encode marker) response
  let rest ← Text.after [123] rest
  if 125 ∈ rest then
    let digits ← Utf8.decode (rest.takeWhile (· ≠ 125))
    let len ← Text.parseUnsigned usizeMax digits
    let rest ← Text.after [13, 10] ((rest.dropWhile (· ≠ 125)).drop 1)
    if len ≤ rest.length then some (rest.take len) else none
  else none

/-- The UID in the line, or 0. -/
def uidOfFetchLine (line : List Char) : ℕ :=
  let fromUid := (Text.splitWhitespace line).dropWhile
    fun token => token.dropWhile (· = '(') ≠ "UID".toList
  (fromUid[1]?.bind (Text.parseUnsigned u32Max)).getD 0

/-- The flags in the line. -/
def flagsOfFetchLine (line : List Char) : Option (List String) := do
  let rest ← Text.after "FLAGS (".toList line
  let (flags, _) ← Text.splitOnce ')' rest
  return (Text.splitWhitespace flags).map String.ofList

/-- The message in a response `* … FETCH …`. -/
def fetchedOf (response : Bytes) (head : List Char) : Except Failure FetchedMessage :=
  match extractLiteral response "BODY[HEADER]" with
  | none => .error (fetchFailure "missing BODY[HEADER]")
  | some header =>
      match extractLiteral response "BODY[TEXT]" with
      | none => .error (fetchFailure "missing BODY[TEXT]")
      | some body => .ok
          { uid := uidOfFetchLine head, flags := flagsOfFetchLine head, header, body,
            internalDate := none }

/-- One response to a fetch. -/
def fetchResponse (tag : ℕ) (fetched : List FetchedMessage) :
    Talk Failure (List FetchedMessage ⊕ List FetchedMessage) := do
  let response ← readResponseBytes
  let head := Text.trimLineEnd (Utf8.lossy response)
  if "* ".toList.isPrefixOf head ∧ Text.contains " FETCH ".toList head then do
    let message ← ofExcept (fetchedOf response head)
    pure (.inl (fetched ++ [message]))
  else if (tagOf tag).isPrefixOf head then
    match noWords head with
    | some words => fail (fetchFailure words)
    | none => pure (.inr fetched)
  else pure (.inl fetched)

/-- Fetch messages. -/
def fetch (tag : ℕ) (uids : List ℕ) : Talk Failure (List FetchedMessage) :=
  if uids = [] then pure []
  else do
    writeCommand tag ("UID FETCH " ++ collapseUids uids ++
      " (UID FLAGS INTERNALDATE BODY.PEEK[HEADER] BODY.PEEK[TEXT])")
    repeatedly (fetchResponse tag) []

/-- Log out and read what comes. -/
def close (tag : ℕ) : Talk Failure Unit := do
  let _ : Except Failure Unit ← attempt (writeCommand tag "LOGOUT")
  let _ : Except Failure Bytes ← attempt readOctets
  let _ : Except Failure Bytes ← attempt readOctets
  pure ()

/-! ### Sessions -/

/-- What a session is asked. -/
inductive Request
  | select (folder : String)
  | searchUid (range : String)
  | fetch (uids : List ℕ)
  | close

/-- What an operation answers. -/
inductive Answer
  | uidValidity (n : ℕ)
  | uids (l : List ℕ)
  | messages (l : List FetchedMessage)
  | closed
  deriving DecidableEq

/-- One command under a tag. -/
def ask (tag : ℕ) : Request → Talk Failure Answer
  | .select folder => do return .uidValidity (← select tag folder)
  | .searchUid range => do return .uids (← searchUid tag range)
  | .fetch uids => do return .messages (← fetch tag uids)
  | .close => do
      close tag
      return .closed

/-- A command that is sent takes the tag. -/
def Request.takesTag : Request → Bool
  | .select _ => true
  | .searchUid range => (validateUidRange range).isOk
  | .fetch uids => uids ≠ []
  | .close => true

/-- The answers to the commands of a session; a command that fails does not end it, and one that
never returns does. -/
def converse : ℕ → List Request → Talk Failure (List (Except String Answer))
  | _, [] => pure []
  | tag, request :: requests => do
      let answer ← attempt (ask (tag + 1) request)
      let answer ← ofExcept (match answer with
        | .ok answer => .ok (.ok answer)
        | .error (.message text) => .ok (.error text)
        | .error .diverged => .error .diverged)
      let answers ← converse (if request.takesTag then tag + 1 else tag) requests
      return answer :: answers

/-- Dial, and go on with the commands. -/
def dialAndConverse (net : Network) (config : ImapConfig) (requests : List Request) :
    Talk Failure (List (Except String Answer)) := do
  let tag ← dial net config
  converse tag requests

end EraseMe.Email.Imap
