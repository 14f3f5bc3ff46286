import EraseMe.Email.Policy
import EraseMe.Library.Wire

/-!
# `email::smtp::network`: one SMTP transaction

`sendInner` greets, upgrades with `STARTTLS` when the configuration asks for it, authenticates and
hands the message over.  Resolving the host, connecting and setting TLS up are outside: `Network`
has their outcome and what the server sends.

* A password goes out only under TLS or to this host; an OAuth2 token has no such guard.
* Bytes that were read ahead of the `STARTTLS` reply end the transaction.
-/

namespace EraseMe.Email.Smtp

open Wire Wire.Talk

/-! ### Settings -/

/-- How to reach the server. -/
structure SmtpConfig where
  host : String := "localhost"
  port : ℤ := 587
  username : String := ""
  password : String := ""
  useTls : Bool := true
  sender : String := ""
  oauth2 : Option OAuth2Token := none
  deriving DecidableEq, Repr

/-- The hosts that may see a password in the clear. -/
def isLocalhost (host : String) : Bool := host = "localhost" ∨ host = "127.0.0.1" ∨ host = "::1"

/-! ### Texts -/

/-- The escapes of one character. -/
def quotedChar (c : Char) : List Char :=
  if c = '"' then ['\\', '"']
  else if c = '\\' then ['\\', '\\']
  else if c.toNat = 7 then ['\\', 'a']
  else if c.toNat = 8 then ['\\', 'b']
  else if c.toNat = 12 then ['\\', 'f']
  else if c = '\n' then ['\\', 'n']
  else if c = '\r' then ['\\', 'r']
  else if c = '\t' then ['\\', 't']
  else if c.toNat = 11 then ['\\', 'v']
  else if c.toNat < 128 ∧ Text.isControl c then '\\' :: 'x' :: Text.padded 16 2 c.toNat
  else if Text.isControl c ∨ (Text.isWhitespace c ∧ c ≠ ' ') then
    '\\' :: 'u' :: Text.padded 16 4 c.toNat
  else [c]

/-- A text in quotes. -/
def smtpQuotedError (message : List Char) : List Char :=
  '"' :: message.flatMap quotedChar ++ ['"']

/-- A reply as an error. -/
def replyError (code : ℕ) (message : List Char) : String :=
  String.ofList (Text.padded 10 3 code ++ ' ' :: smtpQuotedError message)

/-! ### The session -/

/-- What a reply has so far: its code, the texts of its lines and its size. -/
structure Partial where
  code : Option ℕ := none
  messages : List (List Char) := []
  size : ℕ := 0

/-- The first four characters of a reply line. -/
def replyHead (line : List Char) : Option (ℕ × Char) :=
  match line with
  | a :: b :: c :: sep :: _ =>
      if a.isDigit ∧ b.isDigit ∧ c.isDigit ∧ (sep = ' ' ∨ sep = '-') then
        (Text.parseUnsigned 65535 [a, b, c]).map fun code => (code, sep)
      else none
  | _ => none

/-- One line of a reply; a blank after the code ends it. -/
def replyLine (p : Partial) : Talk String (Partial ⊕ (ℕ × List Char)) := do
  let (n, line) ← receive (Reader.readLine (some 65537))
  let size := p.size + n
  if n = 0 then fail "EOF"
  else if n > 65536 ∨ size > 1048576 then fail "SMTP response exceeds limit"
  else match replyHead line with
    | none => fail "malformed SMTP response"
    | some (code, sep) =>
        if p.code.any (· ≠ code) then fail "inconsistent SMTP multiline response"
        else
          let messages := p.messages ++ [Text.trimLineEnd (line.drop 4)]
          if sep = ' ' then pure (.inr (code, List.intercalate ['\n'] messages))
          else pure (.inl ⟨some code, messages, size⟩)

/-- Read a reply. -/
def reply : Talk String (ℕ × List Char) := do
  let n ← pending
  loop "EOF" replyLine (n + 1) {}

/-- Two digits stand for all codes that start with them. -/
def expect (expected : ℕ) : Talk String (List Char) := do
  let (code, message) ← reply
  if code = expected ∨ (expected < 100 ∧ code / 10 = expected) then pure message
  else fail (replyError code message)

/-- A line has no line end. -/
def validateLine (line : String) : Except String Unit :=
  if '\r' ∈ line.toList ∨ '\n' ∈ line.toList then
    .error "smtp: A line must not contain CR or LF"
  else .ok ()

/-- The end of a line. -/
def crlf : Bytes := [13, 10]

/-- Send a command and wait for its reply. -/
def command (text : String) (expected : ℕ) : Talk String (List Char) := do
  ofExcept (validateLine text)
  write id (Utf8.encode text)
  write id crlf
  expect expected

/-- The extensions in the reply to a greeting. -/
def extensionsOf (message : List Char) : List String :=
  ((Text.lines message).drop 1).map fun line => String.ofList (line.takeWhile (· ≠ ' '))

/-- Greet, in the old way when the new one fails; the extensions. -/
def hello : Talk String (List String) := do
  match ← attempt (command "EHLO localhost" 250) with
  | .ok message => pure (extensionsOf message)
  | .error (_ : String) => do
      let _ ← command "HELO localhost" 250
      pure []

/-- The line that starts an exchange. -/
def authLine (mechanism : String) (payload : Bytes) : String :=
  "AUTH " ++ mechanism ++ " " ++ String.ofList (Base64.encode Base64.standard true payload)

/-- Authenticate by a mechanism. -/
def authenticate (mechanism : String) (payload : Bytes) (challengeError : String) :
    Talk String Unit := do
  write id (Utf8.encode (authLine mechanism payload))
  write id crlf
  let (code, message) ← reply
  if code = 235 then pure ()
  else
    let _ : Except String _ ← attempt (command "*" 501)
    let _ : Except String _ ← attempt (command "QUIT" 221)
    fail (if code = 334 then challengeError else replyError code message)

/-! ### The transaction -/

/-- Upgrade the connection, and greet again. -/
def startTls (net : Network) (extensions : List String) : Talk String (List String) := do
  if "STARTTLS" ∉ extensions then fail "SMTP server does not support STARTTLS"
  else do
    let _ ← command "STARTTLS" 220
    let buffer ← ahead
    if buffer ≠ [] then fail "SMTP bytes preceded TLS handshake"
    else do
      ofExcept net.tls
      protect false
      hello

/-- The payload of `PLAIN`. -/
def plainPayload (cfg : SmtpConfig) : Bytes :=
  Utf8.encode ("\x00" ++ cfg.username ++ "\x00" ++ cfg.password)

/-- Present the credentials, if there are any. -/
def presentCredentials (cfg : SmtpConfig) : Talk String Unit :=
  match cfg.oauth2 with
  | some token =>
      if token.username = "" ∨ token.accessToken = "" then fail "oauth2 username/token is empty"
      else authenticate "XOAUTH2" (Utf8.encode (xoauth2Payload token.username token.accessToken))
        "SMTP XOAUTH2 authentication rejected"
  | none =>
      if cfg.username ≠ "" ∧ cfg.password ≠ "" then
        if cfg.useTls = false ∧ isLocalhost cfg.host = false then do
          let _ : Except String _ ← attempt (command "QUIT" 221)
          fail "unencrypted connection"
        else authenticate "PLAIN" (plainPayload cfg) "unexpected server challenge"
      else pure ()

/-- The line with the sender. -/
def mailLine (sender : String) (eightBit utf8 : Bool) : String :=
  "MAIL FROM:<" ++ sender ++ ">" ++ (if eightBit then " BODY=8BITMIME" else "") ++
    (if utf8 then " SMTPUTF8" else "")

/-- The line with a recipient. -/
def rcptLine (recipient : String) : String := "RCPT TO:<" ++ recipient ++ ">"

/-- Double a dot at the start of a line and end lines with both characters; `start` and `previousCr`
say what came before. -/
def dotBytes : Bool → Bool → Bytes → Bytes × Bool × Bool
  | start, previousCr, [] => ([], start, previousCr)
  | start, previousCr, b :: s =>
      let (rest, ended) := dotBytes (b = 10) (b = 13) s
      ((if start ∧ b = 46 then [46] else []) ++ (if b = 10 ∧ ¬ previousCr then [13] else []) ++
        b :: rest, ended)

/-- A message as it goes over the wire. -/
def dotEncode (raw : Bytes) : Bytes :=
  let (encoded, start, previousCr) := dotBytes true false raw
  encoded ++
    (if raw = [] ∨ ¬ start then (if previousCr then [] else [13]) ++ [10] else []) ++ [46, 13, 10]

/-- Hand the message over. -/
def deliver (sender : String) (extensions recipients : List String) (raw : Bytes) :
    Talk String Unit := do
  ofExcept (validateLine sender)
  let _ ← command
    (mailLine sender (extensions.contains "8BITMIME") (extensions.contains "SMTPUTF8")) 250
  recipients.forM fun recipient => do
    ofExcept (validateLine recipient)
    let _ ← command (rcptLine recipient) 25
    pure ()
  let _ ← command "DATA" 354
  write id (dotEncode raw)
  let _ ← expect 250
  let _ ← command "QUIT" 221
  pure ()

/-- The checks before connecting. -/
def validate (cfg : SmtpConfig) (recipients : Option (List String)) :
    Except String (List String) :=
  match recipients.filter (· ≠ []) with
  | none => .error "no recipients"
  | some recipients =>
      if cfg.host = "" then .error "smtp host is empty"
      else if cfg.port ≤ 0 then .error "smtp port must be positive"
      else if cfg.port > 65535 then .error "smtp port is outside TCP range"
      else .ok recipients

/-- Greet the server, under TLS if the configuration says so. -/
def openSession (net : Network) (cfg : SmtpConfig) : Talk String (List String) := do
  ofExcept net.connected
  let _ ← expect 220
  let extensions ← hello
  if cfg.useTls then startTls net extensions else pure extensions

/-- The session of one mail. -/
def sendInner (net : Network) (cfg : SmtpConfig) (recipients : Option (List String))
    (raw : Bytes) : Talk String Unit := do
  let recipients ← ofExcept (validate cfg recipients)
  let extensions ← openSession net cfg
  presentCredentials cfg
  deliver cfg.sender extensions recipients raw

/-- What must not appear in an error. -/
def SmtpConfig.secrets (cfg : SmtpConfig) : List String :=
  let escaped (secret : String) := String.ofList ((smtpQuotedError secret.toList).drop 1).dropLast
  let encoded (payload : Bytes) := String.ofList (Base64.encode Base64.standard true payload)
  [cfg.password, escaped cfg.password, encoded (plainPayload cfg)] ++
    match cfg.oauth2 with
    | some token =>
        let payload := xoauth2Payload token.username token.accessToken
        [token.accessToken, payload, encoded (Utf8.encode payload), escaped token.accessToken]
    | none => []

/-- Send a mail; no secret is in the text of an error. -/
def send (net : Network) (cfg : SmtpConfig) (recipients : Option (List String)) (raw : Bytes)
    (c : Conn) : (Except String Unit × Conn) × List Entry :=
  match sendInner net cfg recipients raw c with
  | ((.error error, c), log) => ((.error (redactError error cfg.secrets), c), log)
  | ((.ok (), c), log) => ((.ok (), c), log)

end EraseMe.Email.Smtp
