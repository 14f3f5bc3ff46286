import EraseMe.Email.Policy
import EraseMe.Library.Wire

/-!
# `email::imap::client`: dialing, and the commands of a session

`dial` connects, asks for the capabilities, upgrades with `STARTTLS` when the server offers it, and
logs in.  Without TLS and without the offer it goes on only if the configuration allows that.

* The reader is made before the upgrade and keeps what it has read ahead.
* The loops that wait for a tagged line do not look for the end of the stream: there they read empty
  lines for ever, which is `Failure.diverged`.  The loop of `fetch` stops at the end.
* The folder that was selected is only ever written, and is left out.
-/

namespace EraseMe.Email.Imap

open Wire Wire.Talk

/-- Why a session fails. -/
inductive Failure
  | message (text : String)
  | diverged
  deriving DecidableEq, Repr

/-- An error of the protocol. -/
def imapFailure (text : String) : Failure := .message (errImap ++ ": " ++ text)

/-- An error of the login. -/
def connectFailure (text : List Char) : Failure :=
  imapFailure ("connect/login failed: " ++ String.ofList text)

/-! ### Lines -/

/-- The tag of a command. -/
def tagOf (n : ℕ) : List Char := 'A' :: Text.padded 10 3 n

/-- The line completes the command of the tag. -/
def isTagged (tag : ℕ) (line : List Char) : Bool := (tagOf tag ++ [' ']).isPrefixOf line

/-- A command as it is sent. -/
def commandLine (tag : ℕ) (text : String) : List Char :=
  tagOf tag ++ ' ' :: text.toList ++ ['\r', '\n']

/-- Send a line. -/
def writeLine (line : List Char) : Talk Failure Unit :=
  write (fun error => .message ("IMAP write failed: " ++ error)) (Utf8.encode (String.ofList line))

/-- Send a command. -/
def writeCommand (tag : ℕ) (text : String) : Talk Failure Unit := writeLine (commandLine tag text)

/-- An error of the stream. -/
def readFailure (error : String) : Failure := .message ("IMAP read failed: " ++ error)

/-- The next line as text. -/
def lineOf (r : Reader) : Except Failure (List Char) × Reader :=
  match r.readLine none with
  | (.ok (_, line), r) => (.ok (Text.trimLineEnd line), r)
  | (.error error, r) => (.error (readFailure error), r)

/-- Read a line. -/
def readLine : Talk Failure (List Char) := receive lineOf

/-- A `loop` of the source: it ends when the body says so. -/
def repeatedly {α β : Type} (body : α → Talk Failure (α ⊕ β)) (a : α) : Talk Failure β := do
  let n ← pending
  loop .diverged body (n + 1) a

/-- One round of such a loop that reads a line. -/
def round {α β : Type} (answer : α → List Char → Talk Failure (α ⊕ β)) (a : α) :
    Talk Failure (α ⊕ β) := readLine >>= answer a

/-! ### Connecting -/

/-- Wait for the greeting. -/
def readGreeting : Talk Failure Unit := do
  let greeting ← readLine
  if Text.contains "OK IMAP4rev1".toList greeting then pure ()
  else fail (connectFailure ("unexpected greeting: ".toList ++ greeting))

/-- One line of the answer. -/
def capabilityLine (tag : ℕ) (caps : List (List Char)) (line : List Char) :
    Talk Failure (List (List Char) ⊕ List (List Char)) :=
  let caps :=
    if "* CAPABILITY".toList.isPrefixOf line then caps ++ (Text.splitWhitespace line).drop 2
    else caps
  pure (if isTagged tag line then .inr caps else .inl caps)

/-- Ask what the server can do. -/
def capability (tag : ℕ) : Talk Failure (List (List Char)) := do
  writeCommand tag "CAPABILITY"
  repeatedly (round (capabilityLine tag)) []

/-- Set TLS up on the connection; its reader may keep what it has read ahead. -/
def tlsHandshake (net : Network) (keep : Bool) : Talk Failure Unit := do
  ofExcept (net.tls.mapError .message)
  protect keep

/-- TLS from the start. -/
def implicitTls (net : Network) (useTls : Bool) : Talk Failure Unit :=
  if useTls then tlsHandshake net false else pure ()

/-- Upgrade to TLS. -/
def startTls (net : Network) (tag : ℕ) : Talk Failure Unit := do
  writeCommand tag "STARTTLS"
  let response ← readLine
  if (tagOf tag ++ " OK".toList).isPrefixOf response then tlsHandshake net true
  else fail (connectFailure ("STARTTLS failed: ".toList ++ response))

/-- Upgrade, or go on without TLS if that is allowed; the last tag. -/
def upgrade (net : Network) (config : ImapConfig) (caps : List (List Char)) : Talk Failure ℕ :=
  if config.useTls then pure 1
  else if "STARTTLS".toList ∈ caps then do
    startTls net 2
    pure 2
  else if config.allowInsecureCleartextAuth then pure 1
  else fail (imapFailure
    "cleartext authentication prohibited: server does not support STARTTLS")

/-- Connect, up to where the credentials are due; the last tag. -/
def connect (net : Network) (config : ImapConfig) : Talk Failure ℕ := do
  ofExcept (if config.host = "" then .error (imapFailure "host is empty") else .ok ())
  ofExcept (net.connected.mapError .message)
  implicitTls net config.useTls
  readGreeting
  let caps ← capability 1
  upgrade net config caps

/-! ### Logging in -/

/-- The text between the first and the second occurrence of a pattern. -/
def secondPart (pattern line : List Char) : List Char :=
  match Text.after pattern line with
  | none => []
  | some rest =>
      match Text.find pattern rest with
      | some i => rest.take i
      | none => rest

/-- The server's words in a tagged `NO`. -/
def refusal (line : List Char) : Failure :=
  let words := Text.trim (secondPart "NO ".toList line)
  connectFailure ((Text.stripPrefix "[AUTHENTICATIONFAILED] ".toList words).getD words)

/-- Read on to the answer to the tag, for a number of lines. -/
def drain (tag : ℕ) : ℕ → Talk Failure Unit
  | 0 => pure ()
  | n + 1 => do
      match ← attempt readLine with
      | .ok line => if isTagged tag line then pure () else drain tag n
      | .error (_ : Failure) => pure ()

/-- Log out after a refusal. -/
def logoutAfterFailure (tag : ℕ) : Talk Failure Unit := do
  match ← attempt (writeCommand tag "LOGOUT") with
  | .ok () => drain tag 4
  | .error (_ : Failure) => pure ()

/-- One line of the answer. -/
def loginLine (tag : ℕ) (_ : Unit) (line : List Char) : Talk Failure (Unit ⊕ Unit) :=
  if isTagged tag line then
    if Text.contains " NO ".toList line then do
      logoutAfterFailure (tag + 1)
      fail (refusal line)
    else if Text.contains " OK ".toList line then pure (.inr ())
    else fail (imapFailure ("IMAP LOGIN failed: " ++ String.ofList line))
  else pure (.inl ())

/-- Log in with a password. -/
def login (tag : ℕ) (username password : String) : Talk Failure Unit := do
  writeCommand tag ("LOGIN \"" ++ username ++ "\" \"" ++ password ++ "\"")
  repeatedly (round (loginLine tag)) ()

/-- One line of the answer. -/
def xoauth2Line (tag : ℕ) (_ : Unit) (line : List Char) : Talk Failure (Unit ⊕ Unit) :=
  if "+".toList.isPrefixOf line then do
    writeLine ['\r', '\n']
    pure (.inl ())
  else if isTagged tag line then
    if Text.contains " NO ".toList line then fail (refusal line)
    else if Text.contains " OK ".toList line then pure (.inr ())
    else fail (imapFailure ("IMAP AUTHENTICATE failed: " ++ String.ofList line))
  else pure (.inl ())

/-- Log in with a token. -/
def authenticateXoauth2 (tag : ℕ) (username token : String) : Talk Failure Unit := do
  writeCommand tag ("AUTHENTICATE XOAUTH2 " ++
    String.ofList (Base64.encode Base64.standard true (Utf8.encode (xoauth2Payload username token))))
  repeatedly (round (xoauth2Line tag)) ()

/-- Present the credentials, if there are any; the last tag. -/
def presentCredentials (config : ImapConfig) (tag : ℕ) : Talk Failure ℕ :=
  match config.oauth2 with
  | some oauth2 =>
      if oauth2.accessToken = "" then pure tag
      else do
        authenticateXoauth2 (tag + 1)
          (if oauth2.username = "" then config.username else oauth2.username) oauth2.accessToken
        pure (tag + 1)
  | none =>
      if config.password = "" then pure tag
      else do
        login (tag + 1) config.username config.password
        pure (tag + 1)

/-- Connect and log in. -/
def dial (net : Network) (config : ImapConfig) : Talk Failure ℕ := do
  let tag ← connect net config
  presentCredentials config tag

end EraseMe.Email.Imap
