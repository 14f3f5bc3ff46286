import EraseMe.Library.Chrono
import EraseMe.Library.Octets

/-!
# `email`: shared values and the transport boundary

The value types of the inbox (`email/types.rs`), the session the policy talks to
(`email/session.rs`) and the stores of the high-water mark (`email/hwm.rs`).  UIDs and
UIDVALIDITY values are 32-bit numbers; the only arithmetic on them is the successor, which the
policy guards.
-/

namespace EraseMe.Email

open Chrono

/-- The largest 32-bit number. -/
def u32Max : ℕ := 4294967295

/-- An instant together with the offset it was written with. -/
structure OffsetDateTime where
  utc : DateTime
  offset : ℤ
  deriving DecidableEq

/-- One parsed mailbox message. -/
structure Message where
  id : String
  subject : String
  sender : String
  recipient : String
  date : Option OffsetDateTime
  body : String
  flags : Option (List String)
  messageId : String
  threadId : String
  imapUid : ℕ
  deriving DecidableEq

/-- A token and its user. -/
structure OAuth2Token where
  username : String
  accessToken : String
  deriving DecidableEq, Repr

/-- IMAP connection settings. -/
structure ImapConfig where
  host : String
  port : ℤ := 993
  username : String := ""
  password : String := ""
  useTls : Bool := true
  folder : String := ""
  sinceDays : ℤ := 0
  maxMessages : ℤ := 0
  oauth2 : Option OAuth2Token := none
  timeoutSeconds : ℤ := 30
  allowInsecureCleartextAuth : Bool := false
  deriving DecidableEq, Repr

/-- The payload of `XOAUTH2`. -/
def xoauth2Payload (username token : String) : String :=
  "user=" ++ username ++ "\x01auth=Bearer " ++ token ++ "\x01\x01"

/-- The values that must never appear in an error message. -/
def ImapConfig.secrets (config : ImapConfig) : List String :=
  config.password :: match config.oauth2 with
    | some oauth2 =>
        if oauth2.accessToken = "" then []
        else
          [oauth2.accessToken,
            xoauth2Payload (if oauth2.username = "" then config.username else oauth2.username)
              oauth2.accessToken]
    | none => []

/-- An IMAP failure, by its message. -/
structure ImapError where
  message : String
  deriving DecidableEq, Repr

/-- One bounded FETCH result. -/
structure FetchedMessage where
  uid : ℕ
  header : List UInt8
  body : List UInt8
  flags : Option (List String)
  internalDate : Option DateTime
  deriving DecidableEq

/-- The answers of one IMAP session. -/
structure ImapSession where
  select : String → Except String ℕ
  searchUid : String → Option DateTime → Except String (List ℕ)
  fetch : List ℕ → Except String (List FetchedMessage)

/-- The dialer: a session for a configuration, or the failure to connect. -/
abbrev ImapDialer := ImapConfig → Except String ImapSession

/-! ### High-water marks -/

/-- A store of the last processed UID for each host and folder, together with the UIDVALIDITY it
was observed under. -/
structure HwmStore (σ : Type) where
  get : σ → String → String → Except String (Option ℕ × Option ℕ)
  set : σ → String → String → ℕ → ℕ → Except String σ

/-- The key of a folder. -/
def hwmKey (host folder : String) : String := host ++ "\x00" ++ folder

/-- The records of `MemoryHwmStore`. -/
abbrev HwmRecords := String → Option (ℕ × ℕ)

/-- Marks in memory. -/
def memoryHwmStore : HwmStore HwmRecords where
  get records host folder := .ok <| match records (hwmKey host folder) with
    | some (validity, last) => (some validity, some last)
    | none => (none, none)
  set records host folder uidValidity lastUid :=
    .ok (Function.update records (hwmKey host folder) (some (uidValidity, lastUid)))

end EraseMe.Email
