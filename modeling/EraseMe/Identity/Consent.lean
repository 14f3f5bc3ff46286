import EraseMe.Library.Folder
import EraseMe.Library.Octets
import EraseMe.Library.Text
import EraseMe.Identity.Gate

/-!
# `identity::consent`: the store of consent tokens

A token has a file under the first eight octets of its SHA-256; a file of the first version is under
the token itself and is renamed by the lookup that finds it.  Every file of the directory holds a
record, and operations on files do not fail.  The clock, the random source and what is outside of the
directory come with each call.

To the callers the store is a table of tokens with their commands and times (`Table`).  The lookup
renames a file before anybody compares the token in it, so that whoever asks for the sixteen digits
of a token's file name takes the file away from the token; nothing else does
(`refines_table`).
-/

namespace EraseMe.Identity.ConsentStore

/-- The files of the directory. -/
abbrev Directory := Folder ConsentRecord

/-! ### Names -/

/-- The hash function. -/
structure Sha256 where
  digest : List UInt8 → List UInt8
  length_digest : ∀ bytes, (digest bytes).length = 32

variable (sha : Sha256)

/-- Two digits of an octet. -/
def hexByte (byte : UInt8) : List Char :=
  [Nat.digitChar (byte.toNat / 16), Nat.digitChar (byte.toNat % 16)]

/-- The digits in a file name. -/
def filePrefix (token : String) : String :=
  String.ofList (((sha.digest (Utf8.encode token)).take 8).flatMap hexByte)

/-- The file of a token. -/
def tokenFilename (token : String) : String := "consent_" ++ filePrefix sha token ++ ".json"

/-- The name in the first version. -/
def legacyFilename (token : String) : String := "consent_" ++ token ++ ".json"

/-! ### Operations -/

/-- Why a token is refused. -/
inductive ConsentError
  | io (message : String)
  | notFound
  | expired
  | commandMismatch
  | denied
  deriving DecidableEq, Repr

/-- `i64::saturating_add`. -/
def saturatingAdd (a b : ℤ) : ℤ := max (-9223372036854775808) (min 9223372036854775807 (a + b))

/-- A day. -/
def defaultTokenTtl : ℤ := 86400

/-- The octets of a token. -/
def tokenBytes : ℕ := 16

/-- When a token issued now expires. -/
def expiry (now ttl : ℤ) : ℤ := saturatingAdd now (if ttl ≤ 0 then defaultTokenTtl else ttl)

/-- The token made of random octets. -/
def encodeToken (bytes : List UInt8) : String :=
  String.ofList (Base64.encode Base64.urlSafe false bytes)

/-- Make a token. -/
def issueToken (dir : Directory) (now : ℤ) (command : String) (ttl : ℤ)
    (random : Except ConsentError (List UInt8)) : Except ConsentError String × Directory :=
  match random with
  | .error error => (.error error, dir)
  | .ok bytes =>
      if bytes.length ≠ tokenBytes then
        (.error (.io "consent token source returned an invalid length"), dir)
      else
        let token := encodeToken bytes
        (.ok token, dir.write (tokenFilename sha token)
          { command, issuedAt := now, expiresAt := expiry now ttl, token := some token })

/-- The file of a token; one with the legacy name gets the hashed name. -/
def findTokenFile (dir : Directory) (token : String) : Except ConsentError String × Directory :=
  let hashed := tokenFilename sha token
  if dir.isFile hashed then (.ok hashed, dir)
  else
    let legacy := legacyFilename token
    -- A token with a slash leads out of the directory.
    if '/' ∈ token.toList ∨ ¬ dir.isFile legacy then (.error .notFound, dir)
    else (.ok hashed, dir.rename legacy hashed)

/-- What is done with the file that was found. -/
def withFile {α : Type} (dir : Directory) (token : String)
    (found : Directory → String → Except ConsentError α × Directory) :
    Except ConsentError α × Directory :=
  match findTokenFile sha dir token with
  | (.error error, dir) => (.error error, dir)
  | (.ok path, dir) => found dir path

/-- Check a token for a command. -/
def verifyToken (dir : Directory) (now : ℤ) (command token : String) :
    Except ConsentError Unit × Directory :=
  if token = "" then (.error .notFound, dir)
  else withFile sha dir token fun dir path =>
    match dir.read path with
    | none => (.error .notFound, dir)
    | some record =>
        if record.token ≠ none ∧ record.token ≠ some token then (.error .notFound, dir)
        else if record.command ≠ command then (.error .commandMismatch, dir)
        else if record.expiresAt < now then (.error .expired, dir.remove path)
        else (.ok (), dir)

/-- Nobody else holds the lock. -/
def lockToken (dir : Directory) (token : String) : Except ConsentError Unit × Directory :=
  withFile sha dir token fun dir path =>
    if dir.isFile path then (.ok (), dir) else (.error .notFound, dir)

/-- Use a token up. -/
def consumeToken (dir : Directory) (token : String) : Except ConsentError Unit × Directory :=
  if token = "" then (.ok (), dir)
  else
    match withFile sha dir token fun dir path => (.ok (), dir.remove path) with
    | (.error .notFound, dir) => (.ok (), dir)
    | result => result

/-- Take a token back. -/
def revokeToken (dir : Directory) (token : String) : Except ConsentError Bool × Directory :=
  if token = "" then (.ok false, dir)
  else
    match withFile sha dir token fun dir path => (.ok (dir.isFile path), dir.remove path) with
    | (.error .notFound, dir) => (.ok false, dir)
    | result => result

/-- A token as it is listed. -/
structure ConsentToken where
  token : String
  command : String
  issuedAt : ℤ
  expiresAt : ℤ
  deriving DecidableEq, Repr

/-- `str::trim_start_matches`; `fuel` is the length of the text. -/
def trimStartMatches (pattern : List Char) : ℕ → List Char → List Char
  | 0, s => s
  | fuel + 1, s =>
      if pattern.isPrefixOf s then trimStartMatches pattern fuel (s.drop pattern.length) else s

/-- A token that is in its file name. -/
def legacyToken (name : String) : String :=
  let s := trimStartMatches "consent_".toList name.toList.length name.toList
  String.ofList (trimStartMatches ".json".toList.reverse s.length s.reverse).reverse

/-- One file of the listing. -/
def listFile (now : ℤ) (listed : List ConsentToken × Directory) (name : String) :
    List ConsentToken × Directory :=
  if ¬ ("consent_".toList.isPrefixOf name.toList ∧ ".json".toList.isSuffixOf name.toList) then listed
  else
    match listed.2.read name with
    | none => listed
    | some record =>
        if record.expiresAt < now then (listed.1, listed.2.remove name)
        else
          (listed.1 ++ [{ token := record.token.getD (legacyToken name), command := record.command,
                          issuedAt := record.issuedAt, expiresAt := record.expiresAt }], listed.2)

/-- The tokens in the order in which they were issued; what has expired is removed. -/
def listTokens (dir : Directory) (now : ℤ) : List ConsentToken × Directory :=
  let names := (dir.map Prod.fst).mergeSort (· ≤ ·)
  let (tokens, dir) := names.foldl (listFile now) ([], dir)
  (tokens.mergeSort (·.issuedAt ≤ ·.issuedAt), dir)

/-! ### The gate -/

/-- Where consent comes from. -/
structure ConsentOptions where
  yes : Bool := false
  consentToken : Option String := none
  consentFile : Option String := none
  consentEnvVar : Option String := none
  consentFileEnvVar : Option String := none
  interactive : Bool := false

/-- What is outside of the directory: the variables and the text files, with whether they are
regular. -/
structure Host where
  var : String → Option String
  readToString : String → Option String
  isFile : String → Option Bool

/-- The first line of a consent file. -/
def readConsentFile (host : Host) (path : String) : Option String :=
  if path = "" then some ""
  else
    match host.readToString path, host.isFile path with
    | some contents, some isFile =>
        if ¬ isFile ∧ path ≠ "/dev/stdin" ∧ path ≠ "/dev/fd/0" then none
        else
          let text := Text.trim contents.toList
          if text = [] then none
          else
            let token := Text.trim (text.takeWhile (· ≠ '\n'))
            if token = [] then none else some (String.ofList token)
    | _, _ => none

/-- An argument or a variable that is there and not empty. -/
def given (value : Option String) : Option String := value.filter (· ≠ "")

/-- The token that the gate checks: of the options, of a file, or of the environment. -/
def selectToken (options : ConsentOptions) (host : Host) : Option String :=
  match given options.consentToken with
  | some token => some token
  | none =>
      match given options.consentFile with
      | some path => readConsentFile host path
      | none =>
          match given (host.var (options.consentFileEnvVar.getD "SYMERASEME_CONSENT_FILE")) with
          | some path => readConsentFile host path
          | none => given (host.var (options.consentEnvVar.getD "SYMERASEME_CONSENT"))

/-- Check a token and use it up. -/
def verifyAndConsume (dir : Directory) (now : ℤ) (command token : String) :
    Except ConsentError Unit × Directory :=
  match verifyToken sha dir now command token with
  | (.error error, dir) => (.error error, dir)
  | (.ok (), dir) =>
      match lockToken sha dir token with
      | (.error error, dir) => (.error error, dir)
      | (.ok (), dir) =>
          match revokeToken sha dir token with
          | (.error error, dir) => (.error error, dir)
          | (.ok true, dir) => (.ok (), dir)
          | (.ok false, dir) => (.error .notFound, dir)

/-- The gate of a command. -/
def authorize (dir : Directory) (now : ℤ) (command : String) (options : ConsentOptions)
    (host : Host) : Except ConsentError Unit × Directory :=
  if options.yes then (.ok (), dir)
  else
    match selectToken options host with
    | none => (.error .denied, dir)
    | some token => verifyAndConsume sha dir now command token

/-! ### Runs -/

/-- What the store is asked. -/
inductive Call
  | issueToken (command : String) (ttl : ℤ) (random : Except ConsentError (List UInt8))
  | verifyToken (command token : String)
  | consumeToken (token : String)
  | revokeToken (token : String)
  | listTokens
  | authorize (command : String) (options : ConsentOptions) (host : Host)

/-- What an operation answers. -/
inductive Reply
  | unit
  | token (token : String)
  | revoked (removed : Bool)
  | tokens (tokens : List ConsentToken)
  deriving DecidableEq, Repr

/-- A call at a time. -/
def perform (dir : Directory) (now : ℤ) : Call → Except ConsentError Reply × Directory
  | .issueToken command ttl random =>
      (issueToken sha dir now command ttl random).map (·.map .token) id
  | .verifyToken command token => (verifyToken sha dir now command token).map (·.map fun _ => .unit) id
  | .consumeToken token => (consumeToken sha dir token).map (·.map fun _ => .unit) id
  | .revokeToken token => (revokeToken sha dir token).map (·.map .revoked) id
  | .listTokens =>
      let (tokens, dir) := listTokens dir now
      (.ok (.tokens tokens), dir)
  | .authorize command options host =>
      (authorize sha dir now command options host).map (·.map fun _ => .unit) id

/-- A call that was made, with its time and its result. -/
structure Event where
  now : ℤ
  call : Call
  result : Except ConsentError Reply

/-- The directory and the history after some calls, from a directory without files. -/
def run (calls : List (ℤ × Call)) : Directory × List Event :=
  calls.foldl (fun (dir, history) (now, call) =>
    let (result, dir) := perform sha dir now call
    (dir, history ++ [⟨now, call, result⟩])) ([], [])

/-! ### The table -/

/-- The string that a call is about. -/
def Call.token : Call → Option String
  | .verifyToken _ token | .consumeToken token | .revokeToken token => some token
  | .authorize _ options host => if options.yes then none else selectToken options host
  | _ => none

/-- The token that a call issues. -/
def Call.issued : Call → Option String
  | .issueToken _ _ (.ok bytes) =>
      if bytes.length = tokenBytes then some (encodeToken bytes) else none
  | _ => none

/-- What a token is good for. -/
structure Grant where
  command : String
  expiresAt : ℤ
  deriving DecidableEq, Repr

/-- A token was issued. -/
def Event.issues (event : Event) : Option (String × Grant) :=
  match event.call, event.result with
  | .issueToken command ttl _, .ok (.token token) => some (token, ⟨command, expiry event.now ttl⟩)
  | _, _ => none

/-- A token was authorized, consumed or revoked. -/
def Event.spends (event : Event) : Option String :=
  match event.call, event.result with
  | .consumeToken token, _ | .revokeToken token, _ => some token
  | .authorize command options host, .ok _ => (Call.authorize command options host).token
  | _, _ => none

/-- The token was issued for the command, has not expired and was not spent since. -/
def Valid (history : List Event) (now : ℤ) (command token : String) : Prop :=
  ∃ before event after grant, history = before ++ event :: after ∧
    event.issues = some (token, grant) ∧ grant.command = command ∧ now ≤ grant.expiresAt ∧
      ∀ later ∈ after, later.spends ≠ some token

/-- The tokens that are out. -/
abbrev Table := String → Option Grant

/-- The table after an event. -/
def Table.record (table : Table) (event : Event) : Table :=
  match event.issues with
  | some (token, grant) => Function.update table token (some grant)
  | none =>
      match event.spends with
      | some token => Function.update table token none
      | none => table

/-- The table that a history makes. -/
def tableOf (history : List Event) : Table := history.foldl Table.record fun _ => none

/-- The token is in the table and has not expired. -/
def Live (table : Table) (now : ℤ) (token : String) : Prop :=
  ∃ grant, table token = some grant ∧ now ≤ grant.expiresAt

/-- The directory holds the table, with any expired records beside. -/
structure Refines (used : Set String) (dir : Directory) (table : Table) (now : ℤ) : Prop where
  live : ∀ token grant, table token = some grant → now ≤ grant.expiresAt →
    ∃ record, dir.read (tokenFilename sha token) = some record ∧ record.token = some token ∧
      record.command = grant.command ∧ record.expiresAt = grant.expiresAt
  file : ∀ name record, dir.read name = some record → now ≤ record.expiresAt →
    ∃ token, name = tokenFilename sha token ∧ record.token = some token ∧
      table token = some ⟨record.command, record.expiresAt⟩
  used : ∀ token grant, table token = some grant → token ∈ used
  nonempty : table "" = none

section Refines

variable {sha} {used : Set String} {dir : Directory} {table : Table} {now : ℤ} {token : String}

theorem filePrefix_of_tokenFilename {token token' : String}
    (h : tokenFilename sha token = tokenFilename sha token') :
    filePrefix sha token = filePrefix sha token' := by
  rwa [tokenFilename, tokenFilename, String.append_left_inj, String.append_right_inj] at h

/-- A legacy name is a hashed name for the digits of the hash only. -/
theorem eq_filePrefix_of_legacyFilename {token token' : String}
    (h : legacyFilename token = tokenFilename sha token') : token = filePrefix sha token' := by
  rwa [legacyFilename, tokenFilename, String.append_left_inj, String.append_right_inj] at h

theorem update_none_some {other : String} {grant : Grant}
    (h : Function.update table token none other = some grant) :
    other ≠ token ∧ table other = some grant := by
  have hne : other ≠ token := by
    rintro rfl
    simp at h
  rw [Function.update_of_ne hne] at h
  exact ⟨hne, h⟩

namespace Refines

/-- Time passes. -/
theorem mono (h : Refines sha used dir table now) {later : ℤ} (hlater : now ≤ later) :
    Refines sha used dir table later where
  live token grant hgrant hle := h.live token grant hgrant (hlater.trans hle)
  file name record hrecord hle := h.file name record hrecord (hlater.trans hle)
  used := h.used
  nonempty := h.nonempty

/-- The record under the name of a token is its own, or it has expired. -/
theorem own (h : Refines sha used dir table now) (hinj : Set.InjOn (filePrefix sha) used)
    (htoken : token ∈ used) {record : ConsentRecord}
    (hrecord : dir.read (tokenFilename sha token) = some record) (hle : now ≤ record.expiresAt) :
    record.token = some token ∧ table token = some ⟨record.command, record.expiresAt⟩ := by
  obtain ⟨token', hname, htoken', hgrant⟩ := h.file _ record hrecord hle
  obtain rfl : token = token' :=
    hinj htoken (h.used token' _ hgrant) (filePrefix_of_tokenFilename hname)
  exact ⟨htoken', hgrant⟩

/-- A record that is not under a name of the table has expired. -/
theorem isFile_of_live (h : Refines sha used dir table now) (hlive : Live table now token) :
    dir.isFile (tokenFilename sha token) = true := by
  obtain ⟨grant, hgrant, hle⟩ := hlive
  obtain ⟨record, hrecord, -⟩ := h.live token grant hgrant hle
  rw [Folder.isFile, hrecord]
  rfl

/-- Expired records may go. -/
theorem remove_expired (h : Refines sha used dir table now) {name : String}
    (hexpired : ∀ record, dir.read name = some record → record.expiresAt < now) :
    Refines sha used (dir.remove name) table now where
  live token grant hgrant hle := by
    obtain ⟨record, hrecord, htoken, hcommand, hexpires⟩ := h.live token grant hgrant hle
    refine ⟨record, ?_, htoken, hcommand, hexpires⟩
    rw [Folder.read_remove, if_neg, hrecord]
    rintro rfl
    have := hexpired record hrecord
    omega
  file other record hrecord hle := by
    rw [Folder.read_remove] at hrecord
    split_ifs at hrecord
    exact h.file other record hrecord hle
  used := h.used
  nonempty := h.nonempty

/-- A token that is not live may leave the table. -/
theorem forget (h : Refines sha used dir table now) (hlive : ¬ Live table now token) :
    Refines sha used dir (Function.update table token none) now where
  live other grant hgrant hle :=
    h.live other grant (update_none_some hgrant).2 hle
  file name record hrecord hle := by
    obtain ⟨other, hname, htoken, hgrant⟩ := h.file name record hrecord hle
    refine ⟨other, hname, htoken, ?_⟩
    rw [Function.update_of_ne, hgrant]
    rintro rfl
    exact hlive ⟨_, hgrant, hle⟩
  used other grant hgrant := h.used other grant (update_none_some hgrant).2
  nonempty := by
    cases hgrant : Function.update table token none "" with
    | none => rfl
    | some grant => exact absurd (update_none_some hgrant).2 (by simp [h.nonempty])

/-- The file of a token goes with its grant. -/
theorem spend (h : Refines sha used dir table now) (hinj : Set.InjOn (filePrefix sha) used)
    (htoken : token ∈ used) :
    Refines sha used (dir.remove (tokenFilename sha token)) (Function.update table token none)
      now where
  live other grant hgrant hle := by
    obtain ⟨hne, hgrant⟩ := update_none_some hgrant
    obtain ⟨record, hrecord, hother⟩ := h.live other grant hgrant hle
    refine ⟨record, ?_, hother⟩
    rw [Folder.read_remove, if_neg, hrecord]
    intro hname
    exact hne (hinj (h.used other grant hgrant) htoken (filePrefix_of_tokenFilename hname))
  file name record hrecord hle := by
    rw [Folder.read_remove] at hrecord
    split_ifs at hrecord with hname
    obtain ⟨other, hother, hrecorded, hgrant⟩ := h.file name record hrecord hle
    refine ⟨other, hother, hrecorded, ?_⟩
    rw [Function.update_of_ne, hgrant]
    rintro rfl
    exact hname hother
  used other grant hgrant := h.used other grant (update_none_some hgrant).2
  nonempty := by
    cases hgrant : Function.update table token none "" with
    | none => rfl
    | some grant => exact absurd (update_none_some hgrant).2 (by simp [h.nonempty])

/-- A new token. -/
theorem issue (h : Refines sha used dir table now) (hinj : Set.InjOn (filePrefix sha) used)
    (htoken : token ∈ used) (hne : token ≠ "") (hnew : table token = none)
    (command : String) (expiresAt : ℤ) :
    Refines sha used (dir.write (tokenFilename sha token) ⟨command, now, expiresAt, some token⟩)
      (Function.update table token (some ⟨command, expiresAt⟩)) now where
  live other grant hgrant hle := by
    by_cases hother : other = token
    · subst hother
      rw [Function.update_self, Option.some.injEq] at hgrant
      subst hgrant
      exact ⟨_, by rw [Folder.read_write, if_pos rfl], rfl, rfl, rfl⟩
    · rw [Function.update_of_ne hother] at hgrant
      obtain ⟨record, hrecord, hrest⟩ := h.live other grant hgrant hle
      refine ⟨record, ?_, hrest⟩
      rw [Folder.read_write, if_neg, hrecord]
      intro hname
      exact hother (hinj (h.used other grant hgrant) htoken (filePrefix_of_tokenFilename hname))
  file name record hrecord hle := by
    rw [Folder.read_write] at hrecord
    split_ifs at hrecord with hname
    · obtain rfl := Option.some.inj hrecord
      exact ⟨token, hname, rfl, Function.update_self ..⟩
    · obtain ⟨other, hother, hrecorded, hgrant⟩ := h.file name record hrecord hle
      refine ⟨other, hother, hrecorded, ?_⟩
      rw [Function.update_of_ne, hgrant]
      rintro rfl
      rw [hnew] at hgrant
      cases hgrant
  used other grant hgrant := by
    by_cases hother : other = token
    · rwa [hother]
    · rw [Function.update_of_ne hother] at hgrant
      exact h.used other grant hgrant
  nonempty := by
    rw [Function.update_of_ne hne.symm]
    exact h.nonempty

end Refines

/-- The string is not the digits of a live token. -/
def Apart (sha : Sha256) (table : Table) (now : ℤ) (token : String) : Prop :=
  ∀ other, Live table now other → token ≠ filePrefix sha other

/-- What the operations on one token have in common. -/
structure Known (sha : Sha256) (used : Set String) (dir : Directory) (table : Table) (now : ℤ)
    (token : String) : Prop where
  refines : Refines sha used dir table now
  injective : Set.InjOn (filePrefix sha) used
  used : token ∈ used
  apart : Apart sha table now token

/-- A lookup moves nothing that is live. -/
theorem findTokenFile_spec (h : Known sha used dir table now token) :
    (∃ dir', findTokenFile sha dir token = (.error .notFound, dir') ∧
        Refines sha used dir' table now ∧ ¬ Live table now token) ∨
      ∃ dir' record, findTokenFile sha dir token = (.ok (tokenFilename sha token), dir') ∧
        Refines sha used dir' table now ∧
          dir'.read (tokenFilename sha token) = some record := by
  unfold findTokenFile
  by_cases hhashed : dir.isFile (tokenFilename sha token) = true
  · obtain ⟨record, hrecord⟩ := Option.isSome_iff_exists.mp hhashed
    exact .inr ⟨dir, record, by simp only [if_pos hhashed], h.refines, hrecord⟩
  · have hnone : dir.read (tokenFilename sha token) = none := by
      rw [Folder.isFile, Option.not_isSome_iff_eq_none] at hhashed
      exact hhashed
    have hlive : ¬ Live table now token := fun hlive => hhashed (h.refines.isFile_of_live hlive)
    by_cases hlegacy : '/' ∈ token.toList ∨ ¬ dir.isFile (legacyFilename token) = true
    · exact .inl ⟨dir, by simp only [if_neg hhashed, if_pos hlegacy], h.refines, hlive⟩
    · have hfile : dir.isFile (legacyFilename token) = true := by
        by_contra hno
        exact hlegacy (.inr hno)
      obtain ⟨record, hrecord⟩ := Option.isSome_iff_exists.mp hfile
      -- The record that is renamed has expired: no live one has this name.
      have hexpired : record.expiresAt < now := by
        by_contra hle
        rw [not_lt] at hle
        obtain ⟨other, hname, -, hgrant⟩ := h.refines.file _ record hrecord hle
        exact h.apart other ⟨_, hgrant, hle⟩ (eq_filePrefix_of_legacyFilename hname)
      have hread (other : String) :
          (dir.rename (legacyFilename token) (tokenFilename sha token)).read other = _ :=
        Folder.read_rename hrecord other
      refine .inr ⟨dir.rename (legacyFilename token) (tokenFilename sha token), record,
        by simp only [if_neg hhashed, if_neg hlegacy], ?_, ?_⟩
      · refine ⟨fun other grant hgrant hle => ?_, fun name record' hrecord' hle => ?_,
          h.refines.used, h.refines.nonempty⟩
        · obtain ⟨record', hrecord', htoken, hcommand, hexpires⟩ :=
            h.refines.live other grant hgrant hle
          refine ⟨record', ?_, htoken, hcommand, hexpires⟩
          rw [hread, if_neg, if_neg, hrecord']
          · intro hname
            rw [hname, hrecord, Option.some.injEq] at hrecord'
            subst hrecord'
            omega
          · intro hname
            rw [hname, hnone] at hrecord'
            cases hrecord'
        · rw [hread] at hrecord'
          split_ifs at hrecord' with htarget hsource
          · obtain rfl := Option.some.inj hrecord'
            omega
          · exact h.refines.file name record' hrecord' hle
      · rw [hread, if_pos rfl]

/-- The table has the token for the command. -/
def Grants (table : Table) (now : ℤ) (command token : String) : Prop :=
  ∃ grant, table token = some grant ∧ grant.command = command ∧ now ≤ grant.expiresAt

theorem Grants.live {command : String} (h : Grants table now command token) :
    Live table now token := by
  obtain ⟨grant, hgrant, -, hle⟩ := h
  exact ⟨grant, hgrant, hle⟩

theorem not_live_empty (h : Refines sha used dir table now) : ¬ Live table now "" := by
  rintro ⟨grant, hgrant, -⟩
  rw [h.nonempty] at hgrant
  cases hgrant

/-- Verification answers what the table says. -/
theorem verifyToken_spec (h : Known sha used dir table now token) (command : String) :
    Refines sha used (verifyToken sha dir now command token).2 table now ∧
      ((verifyToken sha dir now command token).1 = .ok () ↔ Grants table now command token) := by
  unfold verifyToken withFile
  by_cases hempty : token = ""
  · rw [if_pos hempty]
    refine ⟨h.refines, iff_of_false (by simp) fun hgrants => ?_⟩
    rw [hempty] at hgrants
    exact not_live_empty h.refines hgrants.live
  rw [if_neg hempty]
  rcases findTokenFile_spec h with ⟨dir', hfind, href, hlive⟩ | ⟨dir', record, hfind, href, hread⟩
  · rw [hfind]
    exact ⟨href, iff_of_false (by simp) fun hgrants => hlive hgrants.live⟩
  · simp only [hfind, hread]
    -- A live grant is the one that the record has.
    have hlive : ∀ grant, table token = some grant → now ≤ grant.expiresAt →
        record.token = some token ∧ record.command = grant.command ∧
          record.expiresAt = grant.expiresAt := by
      intro grant hgrant hle
      obtain ⟨record', hread', hrecord'⟩ := href.live token grant hgrant hle
      rw [hread, Option.some.injEq] at hread'
      rwa [hread']
    split_ifs with htoken hcommand hexpired
    · refine ⟨href, iff_of_false (by simp) ?_⟩
      rintro ⟨grant, hgrant, -, hle⟩
      exact htoken.2 (hlive grant hgrant hle).1
    · refine ⟨href, iff_of_false (by simp) ?_⟩
      rintro ⟨grant, hgrant, hsame, hle⟩
      exact hcommand ((hlive grant hgrant hle).2.1.trans hsame)
    · refine ⟨href.remove_expired fun record' hread' => ?_, iff_of_false (by simp) ?_⟩
      · rw [hread, Option.some.injEq] at hread'
        rwa [← hread']
      · rintro ⟨grant, hgrant, -, hle⟩
        have := (hlive grant hgrant hle).2.2
        omega
    · rw [not_lt] at hexpired
      obtain ⟨-, hgrant⟩ := href.own h.injective h.used hread hexpired
      exact ⟨href, iff_of_true rfl ⟨_, hgrant, not_not.mp hcommand, hexpired⟩⟩

/-- The operations that remove the file of a token take it from the table. -/
theorem withFile_remove_spec {α : Type} (h : Known sha used dir table now token)
    (answer : Directory → String → α) :
    Refines sha used
        (withFile sha dir token fun dir path => (.ok (answer dir path), dir.remove path)).2
        (Function.update table token none) now ∧
      ((withFile sha dir token fun dir path => (.ok (answer dir path), dir.remove path)).1 =
          .error .notFound ∧ ¬ Live table now token ∨
        ∃ dir', dir'.isFile (tokenFilename sha token) = true ∧
          (withFile sha dir token fun dir path => (.ok (answer dir path), dir.remove path)).1 =
            .ok (answer dir' (tokenFilename sha token))) := by
  unfold withFile
  rcases findTokenFile_spec h with ⟨dir', hfind, href, hlive⟩ | ⟨dir', record, hfind, href, hread⟩
  · rw [hfind]
    exact ⟨href.forget hlive, .inl ⟨rfl, hlive⟩⟩
  · rw [hfind]
    refine ⟨href.spend h.injective h.used, .inr ⟨dir', ?_, rfl⟩⟩
    rw [Folder.isFile, hread]
    rfl

theorem consumeToken_spec (h : Known sha used dir table now token) :
    Refines sha used (consumeToken sha dir token).2 (Function.update table token none) now := by
  unfold consumeToken
  by_cases hempty : token = ""
  · rw [if_pos hempty]
    refine h.refines.forget fun hlive => not_live_empty h.refines ?_
    rwa [hempty] at hlive
  · rw [if_neg hempty]
    obtain ⟨href, hresult⟩ := withFile_remove_spec h fun _ _ => ()
    split
    · next dir' heq =>
      rw [heq] at href
      exact href
    · exact href

theorem revokeToken_spec (h : Known sha used dir table now token) :
    Refines sha used (revokeToken sha dir token).2 (Function.update table token none) now ∧
      (Live table now token → (revokeToken sha dir token).1 = .ok true) := by
  unfold revokeToken
  by_cases hempty : token = ""
  · rw [if_pos hempty]
    have hlive : ¬ Live table now token := by
      rw [hempty]
      exact not_live_empty h.refines
    exact ⟨h.refines.forget hlive, fun h => absurd h hlive⟩
  · rw [if_neg hempty]
    obtain ⟨href, hresult⟩ := withFile_remove_spec h fun dir path => dir.isFile path
    split
    · next dir' heq =>
      rw [heq] at href hresult
      refine ⟨href, fun hlive => ?_⟩
      rcases hresult with ⟨-, hno⟩ | ⟨dir'', -, hok⟩
      · exact absurd hlive hno
      · cases hok
    · next hne =>
      refine ⟨href, fun hlive => ?_⟩
      rcases hresult with ⟨-, hno⟩ | ⟨dir'', hfile, hok⟩
      · exact absurd hlive hno
      · rw [hok, hfile]

theorem lockToken_spec (h : Known sha used dir table now token) (hlive : Live table now token) :
    Refines sha used (lockToken sha dir token).2 table now ∧
      (lockToken sha dir token).1 = .ok () := by
  unfold lockToken withFile
  rcases findTokenFile_spec h with ⟨dir', -, -, hno⟩ | ⟨dir', record, hfind, href, hread⟩
  · exact absurd hlive hno
  · have hfile : dir'.isFile (tokenFilename sha token) = true := by
      rw [Folder.isFile, hread]
      rfl
    simp only [hfind, if_pos hfile]
    exact ⟨href, trivial⟩

/-- The gate takes a token once. -/
theorem verifyAndConsume_spec (h : Known sha used dir table now token) (command : String) :
    ((verifyAndConsume sha dir now command token).1 = .ok () ↔ Grants table now command token) ∧
      Refines sha used (verifyAndConsume sha dir now command token).2
        (if (verifyAndConsume sha dir now command token).1 = .ok () then
          Function.update table token none else table) now := by
  obtain ⟨hverify, hok⟩ := verifyToken_spec h command
  unfold verifyAndConsume
  cases hresult : verifyToken sha dir now command token with
  | mk result dir₁ =>
    rw [hresult] at hverify hok
    cases result with
    | error error =>
      refine ⟨iff_of_false (by simp) fun hgrants => ?_, ?_⟩
      · have := hok.mpr hgrants
        cases this
      · exact hverify
    | ok _ =>
      have hgrants : Grants table now command token := hok.mp rfl
      obtain ⟨hlock, hlocked⟩ := lockToken_spec ⟨hverify, h.injective, h.used, h.apart⟩ hgrants.live
      cases hlockResult : lockToken sha dir₁ token with
      | mk locked dir₂ =>
        rw [hlockResult] at hlock hlocked
        obtain rfl : locked = .ok () := hlocked
        obtain ⟨hrevoke, hrevoked⟩ :=
          revokeToken_spec ⟨hlock, h.injective, h.used, h.apart⟩
        cases hrevokeResult : revokeToken sha dir₂ token with
        | mk revoked dir₃ =>
          rw [hrevokeResult] at hrevoke hrevoked
          obtain rfl : revoked = .ok true := hrevoked hgrants.live
          simp only [hlockResult, hrevokeResult]
          exact ⟨iff_of_true trivial hgrants, hrevoke⟩

theorem listTokens_spec (h : Refines sha used dir table now) :
    Refines sha used (listTokens dir now).2 table now := by
  have hstep : ∀ (names : List String) (listed : List ConsentToken × Directory),
      Refines sha used listed.2 table now →
        Refines sha used (names.foldl (listFile now) listed).2 table now := by
    intro names
    induction names with
    | nil => exact fun _ h => h
    | cons name rest ih =>
      intro listed hlisted
      refine ih _ ?_
      unfold listFile
      split_ifs
      · split
        · exact hlisted
        · next record hread =>
          split_ifs with hexpired
          · refine hlisted.remove_expired fun record' hread' => ?_
            rw [hread, Option.some.injEq] at hread'
            rwa [← hread']
          · exact hlisted
      · exact hlisted
  exact hstep _ ([], dir) h

end Refines

/-! ### Tokens and digits -/

theorem length_encode (abc : List Char) (bytes : List UInt8) :
    (Base64.encode abc false bytes).length = (bytes.length * 4 + 2) / 3 := by
  induction bytes using Base64.encode.induct with
  | case1 => rfl
  | case2 a => simp [Base64.encode]
  | case3 a b => simp [Base64.encode]
  | case4 a b c s ih =>
    simp only [Base64.encode, List.length_cons, ih]
    omega

theorem length_encodeToken {bytes : List UInt8} (h : bytes.length = tokenBytes) :
    (encodeToken bytes).length = 22 := by
  rw [encodeToken, String.length_ofList, length_encode, h]
  rfl

theorem length_filePrefix (token : String) : (filePrefix sha token).length = 16 := by
  have hflat : ∀ bytes : List UInt8, (bytes.flatMap hexByte).length = 2 * bytes.length := by
    intro bytes
    induction bytes with
    | nil => rfl
    | cons byte rest ih =>
      rw [List.flatMap_cons, List.length_append, ih, List.length_cons]
      show 2 + _ = _
      omega
  rw [filePrefix, String.length_ofList, hflat, List.length_take, sha.length_digest]
  rfl

/-- A token is not the digits of another one. -/
theorem issued_ne_filePrefix {call : Call} {token : String} (h : call.issued = some token)
    (other : String) : token ≠ filePrefix sha other := by
  unfold Call.issued at h
  split at h
  · next bytes =>
    split_ifs at h with hlength
    obtain rfl := Option.some.inj h
    intro heq
    have hlen := length_encodeToken hlength
    rw [heq, length_filePrefix] at hlen
    omega
  · cases h

/-! ### Histories -/

section Histories

variable {history : List Event} {event : Event} {now : ℤ} {command token : String}

theorem spends_of_issues {issued : String × Grant} (h : event.issues = some issued) :
    event.spends = none := by
  obtain ⟨time, call, result⟩ := event
  unfold Event.issues at h
  unfold Event.spends
  cases call with
  | issueToken _ _ _ => rfl
  | _ => cases h

/-- An event makes a token valid, or leaves it so. -/
theorem valid_append :
    Valid (history ++ [event]) now command token ↔
      (∃ grant, event.issues = some (token, grant) ∧ grant.command = command ∧
        now ≤ grant.expiresAt) ∨
      Valid history now command token ∧ event.spends ≠ some token := by
  constructor
  · rintro ⟨before, issue, after, grant, hsplit, hissue, hcommand, hle, hafter⟩
    rcases List.eq_nil_or_concat after with rfl | ⟨after', last, rfl⟩
    · obtain ⟨-, hlast⟩ := List.append_inj' hsplit rfl
      rw [List.singleton_inj] at hlast
      exact .inl ⟨grant, by rw [hlast, hissue], hcommand, hle⟩
    · rw [List.concat_eq_append] at hsplit hafter
      rw [← List.cons_append, ← List.append_assoc] at hsplit
      obtain ⟨hhistory, hlast⟩ := List.append_inj' hsplit rfl
      rw [List.singleton_inj] at hlast
      refine .inr ⟨⟨before, issue, after', grant, hhistory, hissue, hcommand, hle,
        fun later hlater => hafter later (List.mem_append_left _ hlater)⟩, ?_⟩
      rw [hlast]
      exact hafter last (List.mem_append_right _ (List.mem_singleton_self last))
  · rintro (⟨grant, hissue, hcommand, hle⟩ |
      ⟨⟨before, issue, after, grant, hsplit, hissue, hcommand, hle, hafter⟩, hspends⟩)
    · exact ⟨history, event, [], grant, rfl, hissue, hcommand, hle, fun _ h => by cases h⟩
    · refine ⟨before, issue, after ++ [event], grant, ?_, hissue, hcommand, hle, ?_⟩
      · rw [hsplit, List.append_assoc, List.cons_append]
      · intro later hlater
        rcases List.mem_append.mp hlater with h | h
        · exact hafter later h
        · rwa [List.mem_singleton.mp h]

theorem tableOf_append : tableOf (history ++ [event]) = (tableOf history).record event := by
  rw [tableOf, List.foldl_append]
  rfl

/-- The tokens that a history issues, in order. -/
def issuedTokens (history : List Event) : List String :=
  history.filterMap fun event => event.issues.map Prod.fst

theorem issuedTokens_append : issuedTokens (history ++ [event]) =
    issuedTokens history ++ (event.issues.map Prod.fst).toList := by
  rw [issuedTokens, List.filterMap_append]
  cases h : event.issues <;> simp [issuedTokens, h]

theorem mem_issuedTokens {grant : Grant} :
    tableOf history token = some grant → token ∈ issuedTokens history := by
  induction history using List.reverseRecOn generalizing grant with
  | nil => rintro ⟨⟩
  | append_singleton history event ih =>
    intro h
    rw [tableOf_append, Table.record] at h
    rw [issuedTokens_append, List.mem_append]
    cases hissues : event.issues with
    | some issued =>
      obtain ⟨token', grant'⟩ := issued
      by_cases htoken : token = token'
      · rw [htoken]
        exact .inr (by simp)
      · simp only [hissues, Function.update_of_ne htoken] at h
        exact .inl (ih h)
    | none =>
      simp only [hissues] at h
      cases hspends : event.spends with
      | some spent =>
        simp only [hspends] at h
        exact .inl (ih (update_none_some h).2)
      | none =>
        simp only [hspends] at h
        exact .inl (ih h)

/-- What a history makes valid is in its table. -/
theorem valid_iff_grants (hnodup : (issuedTokens history).Nodup) :
    Valid history now command token ↔ Grants (tableOf history) now command token := by
  induction history using List.reverseRecOn with
  | nil =>
    refine iff_of_false ?_ ?_
    · rintro ⟨before, issue, after, grant, hsplit, -⟩
      simp at hsplit
    · rintro ⟨grant, hgrant, -⟩
      cases hgrant
  | append_singleton history event ih =>
    rw [issuedTokens_append] at hnodup
    rw [valid_append, ih (List.Nodup.of_append_left hnodup), tableOf_append, Table.record]
    cases hissues : event.issues with
    | some issued =>
      obtain ⟨token', grant'⟩ := issued
      rw [spends_of_issues hissues]
      by_cases htoken : token = token'
      · subst htoken
        have hnew : ¬ Grants (tableOf history) now command token := by
          rintro ⟨grant, hgrant, -⟩
          rw [hissues] at hnodup
          exact List.disjoint_of_nodup_append hnodup (mem_issuedTokens hgrant) (by simp)
        rw [or_iff_left fun h => hnew h.1]
        simp only [Grants, Function.update_self, Option.some.injEq, Prod.mk.injEq, true_and]
      · simp [Grants, htoken, Ne.symm htoken]
    | none =>
      cases hspends : event.spends with
      | some spent =>
        by_cases htoken : token = spent
        · subst htoken
          simp [Grants]
        · simp [Grants, htoken, Ne.symm htoken]
      | none => simp

end Histories

/-! ### Runs -/

section Runs

variable {sha} {used : Set String} {dir : Directory} {table : Table} {now : ℤ} {call : Call}

theorem perform_issueToken {bytes : List UInt8} (hlength : bytes.length = tokenBytes)
    (command : String) (ttl : ℤ) :
    perform sha dir now (.issueToken command ttl (.ok bytes)) =
      (.ok (.token (encodeToken bytes)), dir.write (tokenFilename sha (encodeToken bytes))
        ⟨command, now, expiry now ttl, some (encodeToken bytes)⟩) := by
  simp only [perform, issueToken, if_neg (not_not.mpr hlength)]
  rfl

theorem perform_issueToken_length {bytes : List UInt8} (hlength : bytes.length ≠ tokenBytes)
    (command : String) (ttl : ℤ) :
    perform sha dir now (.issueToken command ttl (.ok bytes)) =
      (.error (.io "consent token source returned an invalid length"), dir) := by
  simp only [perform, issueToken, if_pos hlength]
  rfl

/-- A token is issued when there are enough random octets for it. -/
theorem issues_perform :
    (Event.issues ⟨now, call, (perform sha dir now call).1⟩).map Prod.fst = call.issued := by
  cases call with
  | issueToken command ttl random =>
    cases random with
    | error error => rfl
    | ok bytes =>
      by_cases hlength : bytes.length = tokenBytes
      · rw [perform_issueToken hlength, Call.issued, if_pos hlength]
        rfl
      · rw [perform_issueToken_length hlength, Call.issued, if_neg hlength]
        rfl
  | _ => rfl

/-- A call about a string takes nothing but that from the table. -/
theorem record_of_token {string : String} (h : call.token = some string)
    (result : Except ConsentError Reply) (table : Table) :
    table.record ⟨now, call, result⟩ = table ∨
      table.record ⟨now, call, result⟩ = Function.update table string none := by
  cases call with
  | issueToken _ _ _ => cases h
  | listTokens => cases h
  | verifyToken _ _ => exact .inl rfl
  | consumeToken token =>
    obtain rfl := Option.some.inj h
    exact .inr rfl
  | revokeToken token =>
    obtain rfl := Option.some.inj h
    exact .inr rfl
  | authorize command options host =>
    cases result with
    | error error => exact .inl rfl
    | ok reply =>
      right
      show (match (Call.authorize command options host).token with
        | some token => Function.update table token none
        | none => table) = _
      rw [h]

theorem encodeToken_ne_empty {bytes : List UInt8} (h : bytes.length = tokenBytes) :
    encodeToken bytes ≠ "" := by
  intro heq
  have hlen := length_encodeToken h
  rw [heq] at hlen
  cases hlen

/-- What an `authorize` leaves of the table. -/
theorem record_authorize (table : Table) (now : ℤ) (command : String) (options : ConsentOptions)
    (host : Host) (result : Except ConsentError Unit) :
    table.record ⟨now, .authorize command options host, result.map fun _ => Reply.unit⟩ =
      match result, (Call.authorize command options host).token with
      | .ok _, some token => Function.update table token none
      | _, _ => table := by
  cases result with
  | error error => rfl
  | ok _ =>
    rw [Table.record]
    simp only [Event.issues, Event.spends, Except.map]
    cases (Call.authorize command options host).token with
    | none => rfl
    | some token => rfl

/-- Each call keeps the table. -/
theorem perform_spec (h : Refines sha used dir table now)
    (hinj : Set.InjOn (filePrefix sha) used)
    (htoken : ∀ token, call.token = some token → token ∈ used ∧ Apart sha table now token)
    (hissued : ∀ token, call.issued = some token → token ∈ used ∧ table token = none) :
    Refines sha used (perform sha dir now call).2
      (table.record ⟨now, call, (perform sha dir now call).1⟩) now := by
  have hknown (token : String) (htoken' : call.token = some token) :
      Known sha used dir table now token :=
    ⟨h, hinj, (htoken token htoken').1, (htoken token htoken').2⟩
  cases call with
  | issueToken command ttl random =>
    cases random with
    | error error => exact h
    | ok bytes =>
      by_cases hlength : bytes.length = tokenBytes
      · obtain ⟨hused, hnew⟩ := hissued (encodeToken bytes) (if_pos hlength)
        rw [perform_issueToken hlength]
        exact h.issue hinj hused (encodeToken_ne_empty hlength) hnew command _
      · rw [perform_issueToken_length hlength]
        exact h
  | verifyToken command token => exact (verifyToken_spec (hknown token rfl) command).1
  | consumeToken token => exact consumeToken_spec (hknown token rfl)
  | revokeToken token => exact (revokeToken_spec (hknown token rfl)).1
  | listTokens => exact listTokens_spec h
  | authorize command options host =>
    show Refines sha used (authorize sha dir now command options host).2
      (table.record ⟨now, .authorize command options host,
        (authorize sha dir now command options host).1.map fun _ => Reply.unit⟩) now
    rw [record_authorize]
    by_cases hyes : options.yes = true
    · have htoken' : (Call.authorize command options host).token = none := if_pos hyes
      simp only [authorize, if_pos hyes, htoken']
      exact h
    · have htoken' : (Call.authorize command options host).token = selectToken options host :=
        if_neg hyes
      rw [htoken']
      simp only [authorize, if_neg hyes]
      cases hselect : selectToken options host with
      | none => exact h
      | some token =>
        have hspec := (verifyAndConsume_spec (hknown token (htoken'.trans hselect)) command).2
        cases hresult : verifyAndConsume sha dir now command token with
        | mk result dir' =>
          rw [hresult] at hspec
          simp only [hresult]
          cases result with
          | error error =>
            rw [if_neg (by simp)] at hspec
            exact hspec
          | ok _ =>
            rw [if_pos rfl] at hspec
            exact hspec

/-- What is assumed of a run: the digits tell the strings of the run apart, the clock does not go
back, and the random source does not repeat a token. -/
structure Admissible (sha : Sha256) (used : Set String) (calls : List (ℤ × Call)) : Prop where
  injective : Set.InjOn (filePrefix sha) used
  named : ∀ c ∈ calls, ∀ token, c.2.token = some token → token ∈ used
  issued : ∀ c ∈ calls, ∀ token, c.2.issued = some token → token ∈ used
  clock : calls.Pairwise fun c c' => c.1 ≤ c'.1
  fresh : (calls.filterMap fun c => c.2.issued).Nodup

/-- No call of the run is about the digits of a token that is valid then. -/
def Isolated (sha : Sha256) (calls : List (ℤ × Call)) : Prop :=
  ∀ before now call after, calls = before ++ (now, call) :: after → ∀ string,
    call.token = some string → ∀ command token, Valid (run sha before).2 now command token →
      string ≠ filePrefix sha token

variable {calls : List (ℤ × Call)}

theorem Isolated.before {before after : List (ℤ × Call)} (h : Isolated sha (before ++ after)) :
    Isolated sha before := by
  intro before' now call after' hcalls
  refine h before' now call (after' ++ after) ?_
  rw [hcalls, List.append_assoc, List.cons_append]

theorem Admissible.before {before after : List (ℤ × Call)}
    (h : Admissible sha used (before ++ after)) : Admissible sha used before where
  injective := h.injective
  named c hc := h.named c (List.mem_append_left _ hc)
  issued c hc := h.issued c (List.mem_append_left _ hc)
  clock := (List.pairwise_append.mp h.clock).1
  fresh := by
    have hfresh := h.fresh
    rw [List.filterMap_append] at hfresh
    exact hfresh.of_append_left

/-- A token that is issued was not issued before. -/
theorem Admissible.new {before after : List (ℤ × Call)}
    (h : Admissible sha used (before ++ (now, call) :: after)) {token : String}
    (htoken : call.issued = some token)
    (htokens : issuedTokens (run sha before).2 = before.filterMap fun c => c.2.issued) :
    tableOf (run sha before).2 token = none := by
  by_contra hne
  obtain ⟨grant, hgrant⟩ := Option.ne_none_iff_exists'.mp hne
  have hfresh := h.fresh
  rw [List.filterMap_append] at hfresh
  refine List.disjoint_of_nodup_append hfresh (htokens ▸ mem_issuedTokens hgrant) ?_
  exact List.mem_filterMap.mpr ⟨_, List.mem_cons_self, htoken⟩

theorem run_append :
    run sha (calls ++ [(now, call)]) =
      ((perform sha (run sha calls).1 now call).2,
        (run sha calls).2 ++ [⟨now, call, (perform sha (run sha calls).1 now call).1⟩]) := by
  rw [run, List.foldl_append]
  rfl

/-- The directory of a run holds the table of its history. -/
theorem run_refines : ∀ {calls : List (ℤ × Call)}, Admissible sha used calls →
    Isolated sha calls →
      issuedTokens (run sha calls).2 = calls.filterMap (fun c => c.2.issued) ∧
        ∀ now, (∀ c ∈ calls, c.1 ≤ now) →
          Refines sha used (run sha calls).1 (tableOf (run sha calls).2) now := by
  intro calls
  induction calls using List.reverseRecOn with
  | nil =>
    intro _ _
    exact ⟨rfl, fun now _ => ⟨fun _ _ h => (by cases h), fun _ _ h => (by cases h),
      fun _ _ h => (by cases h), rfl⟩⟩
  | append_singleton calls c ih =>
    obtain ⟨now, call⟩ := c
    intro h hisolated
    obtain ⟨htokens, hrefines⟩ := ih h.before hisolated.before
    have hlater : ∀ c ∈ calls, c.1 ≤ now := fun c hc =>
      (List.pairwise_append.mp h.clock).2.2 c hc _ (List.mem_singleton_self _)
    have hnodup : (issuedTokens (run sha calls).2).Nodup := by
      rw [htokens]
      exact h.before.fresh
    have hmem : (now, call) ∈ calls ++ [(now, call)] := by simp
    refine ⟨?_, fun later hlater' => ?_⟩
    · rw [run_append, issuedTokens_append, issues_perform, htokens, List.filterMap_append]
      cases hissued : call.issued <;> simp [hissued]
    · rw [run_append, tableOf_append]
      refine (perform_spec (hrefines now hlater) h.injective (fun string hstring => ?_)
        fun token htoken => ?_).mono (hlater' _ hmem)
      · refine ⟨h.named _ hmem string hstring, fun token hlive => ?_⟩
        obtain ⟨grant, hgrant, hle⟩ := hlive
        exact hisolated calls now call [] rfl string hstring grant.command token
          ((valid_iff_grants hnodup).mpr ⟨grant, hgrant, rfl, hle⟩)
      · exact ⟨h.issued _ hmem token htoken, h.new htoken htokens⟩

/-- The gate would let the token pass for the command. -/
def Accepts (sha : Sha256) (dir : Directory) (now : ℤ) (command token : String) : Prop :=
  (verifyAndConsume sha dir now command token).1 = .ok ()

theorem map_unit_eq_ok {result : Except ConsentError Unit} :
    result.map (fun _ => Reply.unit) = .ok .unit ↔ result = .ok () := by
  cases result with
  | error error => exact iff_of_false (fun h => by cases h) fun h => by cases h
  | ok _ => exact iff_of_true rfl rfl

end Runs

/-- In a run without a call about the digits of a valid token, the store is a table: `authorize`
answers by the history of the token, and a call about a string that is no live token changes
nothing for the tokens that were issued. -/
theorem refines_table (sha : Sha256) (used : Set String) (calls : List (ℤ × Call))
    (hadmissible : Admissible sha used calls) (hisolated : Isolated sha calls)
    (before after : List (ℤ × Call)) (now : ℤ) (call : Call)
    (hcalls : calls = before ++ (now, call) :: after) :
    (∀ command options host token, call = .authorize command options host →
      options.yes = false → selectToken options host = some token →
        ((perform sha (run sha before).1 now call).1 = .ok .unit ↔
          Valid (run sha before).2 now command token)) ∧
    ∀ string, call.token = some string → (∀ command, ¬ Valid (run sha before).2 now command string) →
      ∀ token ∈ issuedTokens (run sha before).2, ∀ command later, now ≤ later →
        (Accepts sha (perform sha (run sha before).1 now call).2 later command token ↔
          Accepts sha (run sha before).1 later command token) := by
  rw [hcalls] at hadmissible hisolated
  have hmem : (now, call) ∈ before ++ (now, call) :: after := by simp
  obtain ⟨htokens, hrefines⟩ := run_refines hadmissible.before hisolated.before
  have hbefore : ∀ c ∈ before, c.1 ≤ now := fun c hc =>
    (List.pairwise_append.mp hadmissible.clock).2.2 c hc _ List.mem_cons_self
  have href := hrefines now hbefore
  have hnodup : (issuedTokens (run sha before).2).Nodup := by
    rw [htokens]
    exact hadmissible.before.fresh
  have hknown : ∀ string, call.token = some string →
      Known sha used (run sha before).1 (tableOf (run sha before).2) now string := by
    refine fun string hstring => ⟨href, hadmissible.injective,
      hadmissible.named _ hmem string hstring, ?_⟩
    rintro token ⟨grant, hgrant, hle⟩
    exact hisolated before now call after rfl string hstring grant.command token
      ((valid_iff_grants hnodup).mpr ⟨grant, hgrant, rfl, hle⟩)
  constructor
  · rintro command options host token rfl hyes hselect
    have hstring : (Call.authorize command options host).token = some token := by
      rw [Call.token, hyes, if_neg (by simp), hselect]
    have hspec := (verifyAndConsume_spec (hknown token hstring) command).1
    rw [valid_iff_grants hnodup, ← hspec]
    have hauthorize : perform sha (run sha before).1 now (.authorize command options host) =
        (verifyAndConsume sha (run sha before).1 now command token).map
          (·.map fun _ => .unit) id := by
      simp only [perform, authorize, hyes, hselect]
      rfl
    rw [hauthorize]
    exact map_unit_eq_ok
  · intro string hstring hinvalid token htoken command later hlater
    have hissue : call.issued = none := by
      cases call with
      | issueToken _ _ _ => cases hstring
      | _ => rfl
    have hafter := perform_spec href hadmissible.injective
      (fun s hs => ⟨(hknown s hs).used, (hknown s hs).apart⟩)
      (fun t ht => by rw [hissue] at ht; cases ht)
    rw [htokens, List.mem_filterMap] at htoken
    obtain ⟨issue, hissueMem, hissued⟩ := htoken
    have hused : token ∈ used := hadmissible.before.issued issue hissueMem token hissued
    have happart : ∀ table, Apart sha table later token :=
      fun _ other _ => issued_ne_filePrefix sha hissued other
    rw [Accepts, Accepts,
      (verifyAndConsume_spec ⟨hafter.mono hlater, hadmissible.injective, hused, happart _⟩
        command).1,
      (verifyAndConsume_spec ⟨href.mono hlater, hadmissible.injective, hused, happart _⟩
        command).1]
    -- The call takes its own string from the table at most, and that was not live.
    have hdead : ¬ Grants (tableOf (run sha before).2) later command string := by
      rintro ⟨grant, hgrant, -, hle⟩
      exact hinvalid grant.command ((valid_iff_grants hnodup).mpr
        ⟨grant, hgrant, rfl, hlater.trans hle⟩)
    rcases record_of_token hstring (perform sha (run sha before).1 now call).1
      (tableOf (run sha before).2) with hsame | hspent
    · rw [hsame]
    · rw [hspent]
      by_cases hstringToken : token = string
      · rw [hstringToken]
        refine iff_of_false ?_ hdead
        rintro ⟨grant, hgrant, -⟩
        exact (update_none_some hgrant).1 rfl
      · rw [Grants, Function.update_of_ne hstringToken, Grants]

/-! ### A sample -/

/-- A token of sixteen octets and the digits of its file name. -/
def sampleToken : String := "AAECAwQFBgcICQoLDA0ODw"

/-- The digits of the sample's file. -/
def sampleDigits : String := "5d2611d5a4dd2b40"

/-- The digest of the token. -/
def sampleTokenDigest : List UInt8 := [
  93, 38, 17, 213, 164, 221, 43, 64, 178, 119, 223, 219, 94, 207, 91, 73, 129, 145, 80, 215,
  213, 198, 47, 78, 239, 150, 12, 176, 194, 77, 178, 12]

/-- The digest of its digits. -/
def sampleDigitsDigest : List UInt8 := [
  1, 140, 122, 36, 50, 108, 178, 253, 88, 244, 216, 245, 30, 216, 185, 153, 217, 203, 229,
  188, 246, 226, 16, 167, 60, 92, 193, 216, 54, 5, 75, 250]

/-- SHA-256 on the strings of the sample. -/
def sampleSha : Sha256 where
  digest bytes :=
    if bytes = Utf8.encode sampleToken then sampleTokenDigest
    else if bytes = Utf8.encode sampleDigits then sampleDigitsDigest
    else List.replicate 32 0
  length_digest bytes := by
    split_ifs
    · rfl
    · rfl
    · exact List.length_replicate

/-- Nothing is outside of the directory. -/
def emptyHost : Host := ⟨fun _ => none, fun _ => none, fun _ => none⟩

/-- A call that makes the token. -/
def sampleIssue : Call :=
  .issueToken "delete" 60 (.ok [0, 1, 2, 3, 4, 5, 6, 7, 8, 9, 10, 11, 12, 13, 14, 15])

/-- A call that uses it. -/
def sampleAuthorize : Call := .authorize "delete" { consentToken := some sampleToken } emptyHost

/-- One call after the other. -/
def sampleCalls : List (ℤ × Call) := [(1000, sampleIssue), (1030, sampleAuthorize)]

theorem issued_sampleIssue : sampleIssue.issued = some sampleToken := by decide

theorem token_sampleAuthorize : sampleAuthorize.token = some sampleToken := by decide

theorem admissible_sampleCalls : Admissible sampleSha {sampleToken} sampleCalls where
  injective := Set.injOn_singleton _ _
  named c hc token htoken := by
    rcases List.mem_cons.mp hc with rfl | hc
    · cases htoken
    · rw [List.mem_singleton.mp hc, token_sampleAuthorize] at htoken
      exact (Option.some.inj htoken).symm
  issued c hc token htoken := by
    rcases List.mem_cons.mp hc with rfl | hc
    · rw [issued_sampleIssue] at htoken
      exact (Option.some.inj htoken).symm
    · rw [List.mem_singleton.mp hc] at htoken
      cases htoken
  clock := by simp [sampleCalls]
  fresh := by
    have hissued : sampleCalls.filterMap (fun c => c.2.issued) = [sampleToken] := by
      simp only [sampleCalls, List.filterMap_cons, issued_sampleIssue]
      rfl
    rw [hissued]
    exact List.nodup_singleton sampleToken

theorem isolated_sampleCalls : Isolated sampleSha sampleCalls := by
  intro before now call after hcalls string hstring command token _ heq
  have hmem : (now, call) ∈ sampleCalls := by
    rw [hcalls]
    simp
  rcases List.mem_cons.mp hmem with h | h
  · obtain ⟨rfl, rfl⟩ := Prod.mk.inj h
    cases hstring
  · obtain ⟨rfl, rfl⟩ := Prod.mk.inj (List.mem_singleton.mp h)
    rw [token_sampleAuthorize, Option.some.injEq] at hstring
    have hlength := length_filePrefix sampleSha token
    rw [← heq, ← hstring] at hlength
    revert hlength
    decide

/-- The token of the sample is authorized as its history says. -/
theorem refines_table_sample :
    (∀ command options host token, sampleAuthorize = .authorize command options host →
      options.yes = false → selectToken options host = some token →
        ((perform sampleSha (run sampleSha [(1000, sampleIssue)]).1 1030 sampleAuthorize).1 =
            .ok .unit ↔
          Valid (run sampleSha [(1000, sampleIssue)]).2 1030 command token)) ∧
    ∀ string, sampleAuthorize.token = some string →
      (∀ command, ¬ Valid (run sampleSha [(1000, sampleIssue)]).2 1030 command string) →
        ∀ token ∈ issuedTokens (run sampleSha [(1000, sampleIssue)]).2, ∀ command later,
          1030 ≤ later →
            (Accepts sampleSha
                (perform sampleSha (run sampleSha [(1000, sampleIssue)]).1 1030 sampleAuthorize).2
                later command token ↔
              Accepts sampleSha (run sampleSha [(1000, sampleIssue)]).1 later command token) :=
  refines_table sampleSha {sampleToken} sampleCalls admissible_sampleCalls isolated_sampleCalls
    [(1000, sampleIssue)] [] 1030 sampleAuthorize rfl

/-- Somebody asks for the digits of the file name before the token is used. -/
def askedCalls : List (ℤ × Call) :=
  [(1000, sampleIssue), (1010, .verifyToken "delete" sampleDigits), (1030, sampleAuthorize)]

/-- The run is an admissible one, and a valid token is refused. -/
theorem digits_take_token :
    Admissible sampleSha {sampleToken, sampleDigits} askedCalls ∧
      Valid (run sampleSha (askedCalls.take 2)).2 1030 "delete" sampleToken ∧
        (perform sampleSha (run sampleSha (askedCalls.take 2)).1 1030 sampleAuthorize).1 =
          .error .notFound := by
  have hdiffer : filePrefix sampleSha sampleToken ≠ filePrefix sampleSha sampleDigits := by
    decide
  have hissued : askedCalls.filterMap (fun c => c.2.issued) = [sampleToken] := by
    simp only [askedCalls, List.filterMap_cons, issued_sampleIssue]
    rfl
  refine ⟨⟨?_, ?_, ?_, by simp [askedCalls], ?_⟩, ?_, by decide⟩
  · rintro string (rfl | rfl) other (rfl | rfl) heq
    · rfl
    · exact absurd heq hdiffer
    · exact absurd heq.symm hdiffer
    · rfl
  · intro c hc token htoken
    simp only [askedCalls, List.mem_cons, List.not_mem_nil, or_false] at hc
    rcases hc with rfl | rfl | rfl
    · cases htoken
    · exact .inr (Option.some.inj htoken).symm
    · rw [token_sampleAuthorize] at htoken
      exact .inl (Option.some.inj htoken).symm
  · intro c hc token htoken
    have hmem : token ∈ askedCalls.filterMap fun c => c.2.issued :=
      List.mem_filterMap.mpr ⟨c, hc, htoken⟩
    rw [hissued] at hmem
    exact .inl (List.mem_singleton.mp hmem)
  · rw [hissued]
    exact List.nodup_singleton sampleToken
  · refine ⟨[], _, [_], ⟨"delete", 1060⟩, rfl, by decide, rfl, by decide, ?_⟩
    intro later hlater
    rw [List.mem_singleton.mp hlater]
    exact fun h => by cases h

end EraseMe.Identity.ConsentStore
