import EraseMe.Identity.Consent

/-!
# `identity::consent`: `grant`, and revoking everything

Here a file of the consent directory is what `serde_json` reads from it, `none` for a malformed one;
any record may be under any name.  Operations on files do not fail.

`grant` with `revoke_all` goes through the tokens that `list_tokens` makes out, not through the
files.  A record without a token gets one from its file name, with every repetition of the start and
the end of the name taken off.  The revocation of a token removes the file that the lookup of the
token leads to.

`revokeAll_closes`: when the listed token of each live record leads to its file, nothing is
authorized afterwards, whatever calls follow, until a token is issued.
-/

namespace EraseMe.Identity.ConsentGrant

open ConsentStore (Sha256 tokenFilename legacyFilename ConsentError ConsentToken ConsentOptions
  legacyToken selectToken encodeToken expiry tokenBytes)

/-- The consent directory. -/
abbrev Directory := Folder (Option ConsentRecord)

variable (sha : Sha256)

/-! ### Operations -/

/-- Make a token. -/
def issueToken (dir : Directory) (now : ℤ) (command : String) (ttl : ℤ)
    (random : Except ConsentError (List UInt8)) : Except ConsentError String × Directory :=
  match random with
  | .error error => (.error error, dir)
  | .ok bytes =>
      if bytes.length ≠ tokenBytes then
        (.error (.io "consent token source returned an invalid length"), dir)
      else
        let token := encodeToken bytes
        (.ok token, dir.write (tokenFilename sha token)
          (some { command, issuedAt := now, expiresAt := expiry now ttl, token := some token }))

/-- The file of a token; one with the legacy name gets the hashed name. -/
def findTokenFile (dir : Directory) (token : String) : Except ConsentError String × Directory :=
  let hashed := tokenFilename sha token
  if dir.isFile hashed then (.ok hashed, dir)
  else
    let legacy := legacyFilename token
    -- A token with a slash leads out of the directory.
    if '/' ∈ token.toList ∨ ¬ dir.isFile legacy then (.error .notFound, dir)
    else (.ok hashed, dir.rename legacy hashed)

/-- Check a token for a command. -/
def verifyToken (dir : Directory) (now : ℤ) (command token : String) :
    Except ConsentError Unit × Directory :=
  if token = "" then (.error .notFound, dir)
  else
    match findTokenFile sha dir token with
    | (.error error, dir) => (.error error, dir)
    | (.ok path, dir) =>
        match dir.read path with
        | none | some none => (.error .notFound, dir)
        | some (some record) =>
            if record.token ≠ none ∧ record.token ≠ some token then (.error .notFound, dir)
            else if record.command ≠ command then (.error .commandMismatch, dir)
            else if record.expiresAt < now then (.error .expired, dir.remove path)
            else (.ok (), dir)

/-- Nobody else holds the lock. -/
def lockToken (dir : Directory) (token : String) : Except ConsentError Unit × Directory :=
  match findTokenFile sha dir token with
  | (.error error, dir) => (.error error, dir)
  | (.ok path, dir) => if dir.isFile path then (.ok (), dir) else (.error .notFound, dir)

/-- Whether a file was removed. -/
def revokeToken (dir : Directory) (token : String) : Except ConsentError Bool × Directory :=
  if token = "" then (.ok false, dir)
  else
    match findTokenFile sha dir token with
    | (.error .notFound, dir) => (.ok false, dir)
    | (.error error, dir) => (.error error, dir)
    | (.ok path, dir) => (.ok (dir.isFile path), dir.remove path)

/-- Use a token up. -/
def consumeToken (dir : Directory) (token : String) : Except ConsentError Unit × Directory :=
  match revokeToken sha dir token with
  | (.error error, dir) => (.error error, dir)
  | (.ok _, dir) => (.ok (), dir)

/-- A file of the consent directory that is listed. -/
def isRecordName (name : String) : Bool :=
  "consent_".toList.isPrefixOf name.toList && ".json".toList.isSuffixOf name.toList

/-- The token that a record is listed with. -/
def listedToken (name : String) (record : ConsentRecord) : String :=
  record.token.getD (legacyToken name)

/-- One file of the listing. -/
def listFile (now : ℤ) (listed : List ConsentToken × Directory) (name : String) :
    List ConsentToken × Directory :=
  if isRecordName name = false then listed
  else
    match listed.2.read name with
    | none | some none => listed
    | some (some record) =>
        if record.expiresAt < now then (listed.1, listed.2.remove name)
        else
          (listed.1 ++ [{ token := listedToken name record, command := record.command,
                          issuedAt := record.issuedAt, expiresAt := record.expiresAt }], listed.2)

/-- The tokens in the order in which they were issued; what has expired is removed. -/
def listTokens (dir : Directory) (now : ℤ) : List ConsentToken × Directory :=
  let names := (dir.map Prod.fst).mergeSort (· ≤ ·)
  let (tokens, dir) := names.foldl (listFile now) ([], dir)
  (tokens.mergeSort (·.issuedAt ≤ ·.issuedAt), dir)

/-- Check a token and use it up. -/
def verifyAndConsume (dir : Directory) (now : ℤ) (command token : String) :
    Except ConsentError Unit × Directory :=
  match verifyToken sha dir now command token with
  | (.error error, dir) => (.error error, dir)
  | (.ok (), dir) =>
      match lockToken sha dir token with
      | (.error error, dir) => (.error error, dir)
      | (.ok (), dir) =>
          match revokeToken sha dir token with
          | (.error error, dir) => (.error error, dir)
          | (.ok true, dir) => (.ok (), dir)
          | (.ok false, dir) => (.error .notFound, dir)

/-- The gate of a command. -/
def authorize (dir : Directory) (now : ℤ) (command : String) (options : ConsentOptions)
    (host : ConsentStore.Host) : Except ConsentError Unit × Directory :=
  if options.yes then (.ok (), dir)
  else
    match selectToken options host with
    | none => (.error .denied, dir)
    | some token => verifyAndConsume sha dir now command token

/-! ### `grant` -/

/-- What `grant` is asked for. -/
structure GrantOptions where
  command : String := "execute"
  ttl : ℤ := ConsentStore.defaultTokenTtl
  dryRun : Bool := false
  listTokens : Bool := false
  revoke : Option String := none
  revokeAll : Bool := false

/-- What a grant command did. -/
inductive GrantOutcome
  | list (tokens : List ConsentToken) (count : ℕ)
  | dryRun (command revoke : String) (revokeAll : Bool)
  | revokeAll (revoked : ℕ)
  | revokeOne
  | issue (token : String)
  deriving DecidableEq, Repr

/-- Revokes one token after the other and counts the files removed. -/
def revokeEach : Directory → List String → ℕ → Except ConsentError ℕ × Directory
  | dir, [], revoked => (.ok revoked, dir)
  | dir, token :: tokens, revoked =>
      match revokeToken sha dir token with
      | (.error error, dir) => (.error error, dir)
      | (.ok removed, dir) => revokeEach dir tokens (if removed then revoked + 1 else revoked)

/-- List, make or revoke tokens. -/
def grant (dir : Directory) (now : ℤ) (options : GrantOptions)
    (random : Except ConsentError (List UInt8)) : Except ConsentError GrantOutcome × Directory :=
  let revoke := options.revoke.getD ""
  if options.listTokens then
    let (tokens, dir) := listTokens dir now
    (.ok (.list tokens tokens.length), dir)
  else if options.dryRun then (.ok (.dryRun options.command revoke options.revokeAll), dir)
  else if options.revokeAll then
    let (tokens, dir) := listTokens dir now
    (revokeEach sha dir (tokens.map (·.token)) 0).map (·.map .revokeAll) id
  else if revoke ≠ "" then
    match revokeToken sha dir revoke with
    | (.error error, dir) => (.error error, dir)
    | (.ok removed, dir) => (if removed then .ok .revokeOne else .error .notFound, dir)
  else (issueToken sha dir now options.command options.ttl random).map (·.map .issue) id

/-! ### Runs -/

/-- What the store is asked. -/
inductive Call
  | issueToken (command : String) (ttl : ℤ) (random : Except ConsentError (List UInt8))
  | verifyToken (command token : String)
  | consumeToken (token : String)
  | revokeToken (token : String)
  | listTokens
  | authorize (command : String) (options : ConsentOptions) (host : ConsentStore.Host)
  | grant (options : GrantOptions) (random : Except ConsentError (List UInt8))

/-- The directory after a call. -/
def perform (dir : Directory) (now : ℤ) : Call → Directory
  | .issueToken command ttl random => (issueToken sha dir now command ttl random).2
  | .verifyToken command token => (verifyToken sha dir now command token).2
  | .consumeToken token => (consumeToken sha dir token).2
  | .revokeToken token => (revokeToken sha dir token).2
  | .listTokens => (listTokens dir now).2
  | .authorize command options host => (authorize sha dir now command options host).2
  | .grant options random => (grant sha dir now options random).2

/-- The directory after calls, each at its time. -/
def run (dir : Directory) (calls : List (ℤ × Call)) : Directory :=
  calls.foldl (fun dir c => perform sha dir c.1 c.2) dir

/-- A call that may issue a token. -/
def Call.issues : Call → Bool
  | .issueToken _ _ _ => true
  | .grant options _ => !options.listTokens && !options.dryRun && !options.revokeAll &&
      options.revoke.getD "" = ""
  | _ => false

/-! ### Where a record can get to -/

/-- Lookups give a file one name after the other. -/
inductive Renamed (name : String) : String → Prop
  | refl : Renamed name name
  | lookup {token : String} : token ≠ "" → '/' ∉ token.toList →
      Renamed name (legacyFilename token) → Renamed name (tokenFilename sha token)

/-- No lookups bring a record to the file of a string that it allows. -/
def Stray (name : String) (record : ConsentRecord) : Prop :=
  ∀ token, token ≠ "" → record.token = none ∨ record.token = some token →
    ¬ Renamed sha name (tokenFilename sha token)

/-- A file that a listing leaves. -/
def Live (dir : Directory) (now : ℤ) (name : String) : Prop :=
  ∃ contents, dir.read name = some contents ∧ ∀ record, contents = some record → now ≤ record.expiresAt

/-- The lookup of a string, after a listing, finds a file. -/
def Leads (dir : Directory) (now : ℤ) (token name : String) : Prop :=
  token ≠ "" ∧ (name = tokenFilename sha token ∨
    name = legacyFilename token ∧ '/' ∉ token.toList ∧ ¬ Live dir now (tokenFilename sha token))

/-- The token that each live record is listed with leads to its file, or no string does. -/
def Found (dir : Directory) (now : ℤ) : Prop :=
  ∀ name record, dir.read name = some (some record) → isRecordName name = true →
    now ≤ record.expiresAt →
      Stray sha name record ∨ Leads sha dir now (listedToken name record) name

/-- No record can get to the file of a string that it allows. -/
def Inert (dir : Directory) : Prop :=
  ∀ name record, dir.read name = some (some record) → Stray sha name record

/-! ### Lookups -/

variable {sha} {dir : Directory} {now : ℤ} {name token : String} {record : ConsentRecord}
  {contents : Option ConsentRecord}

/-- What a lookup finds, and what it does to the directory. -/
theorem findTokenFile_cases (sha : Sha256) (dir : Directory) (token : String) :
    (findTokenFile sha dir token = (.ok (tokenFilename sha token), dir) ∧
      dir.isFile (tokenFilename sha token) = true) ∨
    (findTokenFile sha dir token = (.error .notFound, dir) ∧
      dir.isFile (tokenFilename sha token) = false ∧
        ('/' ∈ token.toList ∨ dir.isFile (legacyFilename token) = false)) ∨
    (findTokenFile sha dir token = (.ok (tokenFilename sha token),
        dir.rename (legacyFilename token) (tokenFilename sha token)) ∧
      dir.isFile (tokenFilename sha token) = false ∧ '/' ∉ token.toList ∧
        dir.isFile (legacyFilename token) = true) := by
  unfold findTokenFile
  dsimp only
  split_ifs with hhashed hlegacy
  · exact Or.inl ⟨rfl, hhashed⟩
  · rw [Bool.not_eq_true] at hlegacy
    exact Or.inr (Or.inl ⟨rfl, by simpa using hhashed, hlegacy⟩)
  · rw [not_or, not_not] at hlegacy
    exact Or.inr (Or.inr ⟨rfl, by simpa using hhashed, hlegacy.1, hlegacy.2⟩)

theorem stray_of_lookup (htoken : token ≠ "") (hslash : '/' ∉ token.toList)
    (h : Stray sha (legacyFilename token) record) : Stray sha (tokenFilename sha token) record := by
  have hlater : ∀ name, Renamed sha (tokenFilename sha token) name →
      Renamed sha (legacyFilename token) name := by
    intro name hrenamed
    induction hrenamed with
    | refl => exact Renamed.lookup htoken hslash Renamed.refl
    | lookup hne hslash' _ ih => exact Renamed.lookup hne hslash' ih
  exact fun other hother hadmits hrenamed => h other hother hadmits (hlater _ hrenamed)

theorem inert_findTokenFile (h : Inert sha dir) (htoken : token ≠ "") :
    Inert sha (findTokenFile sha dir token).2 := by
  rcases findTokenFile_cases sha dir token with ⟨hfind, -⟩ | ⟨hfind, -⟩ |
    ⟨hfind, -, hslash, -⟩
  · rw [hfind]
    exact h
  · rw [hfind]
    exact h
  · rw [hfind]
    intro name record hread
    rcases Folder.read_of_rename hread with hsame | ⟨rfl, hmoved⟩
    · exact h name record hsame
    · exact stray_of_lookup htoken hslash (h _ record hmoved)

theorem inert_remove (h : Inert sha dir) (name : String) : Inert sha (dir.remove name) :=
  fun other record hread => h other record (Folder.read_of_remove hread).2

/-! ### Calls on an inert directory -/

theorem verifyToken_inert (h : Inert sha dir) (now : ℤ) (command token : String) :
    (verifyToken sha dir now command token).1 ≠ .ok () ∧
      Inert sha (verifyToken sha dir now command token).2 := by
  unfold verifyToken
  split_ifs with htoken
  · exact ⟨by simp, h⟩
  · have hinert := inert_findTokenFile h htoken
    cases hfind : findTokenFile sha dir token with
    | mk result dir' =>
      rw [hfind] at hinert
      cases result with
      | error error => exact ⟨by simp, hinert⟩
      | ok path =>
        have hpath : path = tokenFilename sha token := by
          rcases findTokenFile_cases sha dir token with ⟨heq, -⟩ | ⟨heq, -⟩ | ⟨heq, -⟩
          all_goals
            rw [hfind] at heq
            cases heq
          · rfl
          · rfl
        dsimp only
        split
        · exact ⟨by simp, hinert⟩
        · exact ⟨by simp, hinert⟩
        · next record hread =>
          split_ifs with hother hcommand hexpired
          · exact ⟨by simp, hinert⟩
          · exact ⟨by simp, hinert⟩
          · exact ⟨by simp, inert_remove hinert path⟩
          · -- the record would be in the file of the string
            rw [hpath] at hread
            refine absurd Renamed.refl (hinert _ record hread token htoken ?_)
            rw [not_and_or, not_not, not_not] at hother
            exact hother

theorem inert_revokeToken (h : Inert sha dir) (token : String) :
    Inert sha (revokeToken sha dir token).2 := by
  unfold revokeToken
  split_ifs with htoken
  · exact h
  · have hinert := inert_findTokenFile h htoken
    split
    · next heq =>
      rw [heq] at hinert
      exact hinert
    · next heq =>
      rw [heq] at hinert
      exact hinert
    · next heq =>
      rw [heq] at hinert
      exact inert_remove hinert _

theorem authorize_inert (h : Inert sha dir) (command : String) {options : ConsentOptions}
    (host : ConsentStore.Host) :
    (options.yes = false → (authorize sha dir now command options host).1 ≠ .ok ()) ∧
      Inert sha (authorize sha dir now command options host).2 := by
  unfold authorize
  split_ifs with hyes
  · exact ⟨fun hno => absurd (hno.symm.trans hyes) (by simp), h⟩
  · cases selectToken options host with
    | none => exact ⟨fun _ => by simp, h⟩
    | some token =>
      obtain ⟨hrefused, hinert⟩ := verifyToken_inert h now command token
      simp only [verifyAndConsume]
      cases hverify : verifyToken sha dir now command token with
      | mk result dir' =>
        rw [hverify] at hrefused hinert
        cases result with
        | error error => exact ⟨fun _ => by simp, hinert⟩
        | ok u => exact absurd rfl hrefused

/-! ### Listing -/

/-- A record that the listing removes. -/
def Expired (now : ℤ) (name : String) (contents : Option ConsentRecord) : Prop :=
  isRecordName name = true ∧ ∃ record, contents = some record ∧ record.expiresAt < now

/-- One file: what is there after it, and the token of a live record. -/
theorem listFile_spec (listed : List ConsentToken × Directory) (now : ℤ) (name : String) :
    (∀ other contents, (listFile now listed name).2.read other = some contents ↔
      listed.2.read other = some contents ∧ ¬ (other = name ∧ Expired now name contents)) ∧
    (∀ token ∈ listed.1, token ∈ (listFile now listed name).1) ∧
    ∀ record, listed.2.read name = some (some record) → isRecordName name = true →
      now ≤ record.expiresAt →
        listedToken name record ∈ (listFile now listed name).1.map (·.token) := by
  unfold listFile
  split_ifs with hname
  · refine ⟨fun other contents => ?_, fun token h => h, fun record _ hrecord => ?_⟩
    · rw [iff_self_and]
      exact fun _ h => absurd (hname.symm.trans h.2.1) (by simp)
    · exact absurd (hname.symm.trans hrecord) (by simp)
  · rw [Bool.not_eq_false] at hname
    have hkeep : (∀ record, listed.2.read name = some (some record) → now ≤ record.expiresAt) →
        ∀ other contents, listed.2.read other = some contents ↔
          listed.2.read other = some contents ∧ ¬ (other = name ∧ Expired now name contents) := by
      intro hlive other contents
      rw [iff_self_and]
      rintro hread ⟨rfl, -, record, rfl, hlt⟩
      exact absurd (hlive record hread) (not_le.2 hlt)
    split
    · next hread =>
      have hnone : ∀ record, listed.2.read name ≠ some (some record) := by simp [hread]
      exact ⟨hkeep fun record h => absurd h (hnone record), fun token h => h,
        fun record h => absurd h (hnone record)⟩
    · next hread =>
      have hnone : ∀ record, listed.2.read name ≠ some (some record) := by simp [hread]
      exact ⟨hkeep fun record h => absurd h (hnone record), fun token h => h,
        fun record h => absurd h (hnone record)⟩
    · next record hread =>
      split_ifs with hexpired
      · refine ⟨fun other contents => ?_, fun token h => h, fun found hfound _ hlive => ?_⟩
        · rw [Folder.read_remove]
          by_cases hother : other = name
          · subst hother
            rw [if_pos rfl, hread]
            refine iff_of_false (by simp) fun h => h.2 ⟨rfl, hname, record, ?_, hexpired⟩
            exact (Option.some.inj h.1).symm
          · simp [hother]
        · rw [hread] at hfound
          cases hfound
          exact absurd hlive (not_le.2 hexpired)
      · rw [not_lt] at hexpired
        refine ⟨hkeep fun found h => ?_, fun token h => List.mem_append_left _ h,
          fun found hfound _ _ => ?_⟩
        · rw [hread] at h
          cases h
          exact hexpired
        · rw [hread] at hfound
          cases hfound
          simp

/-- The whole listing: expired records go, and the token of every other record is listed. -/
theorem listTokens_spec (dir : Directory) (now : ℤ) :
    (∀ name contents, (listTokens dir now).2.read name = some contents ↔
      dir.read name = some contents ∧ ¬ Expired now name contents) ∧
    ∀ name record, dir.read name = some (some record) → isRecordName name = true →
      now ≤ record.expiresAt →
        listedToken name record ∈ (listTokens dir now).1.map (·.token) := by
  have hfold : ∀ (names : List String) (listed : List ConsentToken × Directory),
      (∀ other contents, (names.foldl (listFile now) listed).2.read other = some contents ↔
        listed.2.read other = some contents ∧ ¬ (other ∈ names ∧ Expired now other contents)) ∧
      (∀ token ∈ listed.1, token ∈ (names.foldl (listFile now) listed).1) ∧
      ∀ name ∈ names, ∀ record, listed.2.read name = some (some record) →
        isRecordName name = true → now ≤ record.expiresAt →
          listedToken name record ∈ (names.foldl (listFile now) listed).1.map (·.token) := by
    intro names
    induction names with
    | nil => exact fun listed => ⟨by simp, fun token h => h, by simp⟩
    | cons name names ih =>
      intro listed
      obtain ⟨hread, hmono, htoken⟩ := listFile_spec listed now name
      obtain ⟨hreads, hmonos, htokens⟩ := ih (listFile now listed name)
      rw [List.foldl_cons]
      refine ⟨fun other contents => ?_, fun token h => hmonos _ (hmono _ h),
        fun other hother record hrecord hname hlive => ?_⟩
      · rw [hreads, hread, List.mem_cons]
        constructor
        · rintro ⟨⟨hthere, hfirst⟩, hrest⟩
          refine ⟨hthere, ?_⟩
          rintro ⟨rfl | hmem, hexpired⟩
          · exact hfirst ⟨rfl, hexpired⟩
          · exact hrest ⟨hmem, hexpired⟩
        · rintro ⟨hthere, hnot⟩
          refine ⟨⟨hthere, ?_⟩, fun h => hnot ⟨Or.inr h.1, h.2⟩⟩
          rintro ⟨rfl, hexpired⟩
          exact hnot ⟨Or.inl rfl, hexpired⟩
      · rcases List.mem_cons.1 hother with rfl | hmem
        · obtain ⟨token, hin, heq⟩ := List.mem_map.1 (htoken record hrecord hname hlive)
          exact List.mem_map.2 ⟨token, hmonos _ hin, heq⟩
        · refine htokens other hmem record ((hread _ _).2 ⟨hrecord, ?_⟩) hname hlive
          rintro ⟨rfl, -, found, hfound, hlt⟩
          cases hfound
          exact absurd hlive (not_le.2 hlt)
  have hnames : ∀ {name contents}, dir.read name = some contents →
      name ∈ (dir.map Prod.fst).mergeSort (· ≤ ·) :=
    fun h => List.mem_mergeSort.2 (Folder.mem_names h)
  obtain ⟨hread, -, htoken⟩ := hfold ((dir.map Prod.fst).mergeSort (· ≤ ·)) ([], dir)
  refine ⟨fun name contents => ?_, fun name record hrecord hname hlive => ?_⟩
  · refine (hread name contents).trans (and_congr_right fun hthere => ?_)
    rw [and_iff_right (hnames hthere)]
  · obtain ⟨token, hin, heq⟩ := List.mem_map.1 (htoken name (hnames hrecord) record hrecord hname hlive)
    exact List.mem_map.2 ⟨token, List.mem_mergeSort.2 hin, heq⟩

theorem inert_listTokens (h : Inert sha dir) (now : ℤ) : Inert sha (listTokens dir now).2 :=
  fun name record hread => h name record (((listTokens_spec dir now).1 _ _).1 hread).1

/-! ### Names -/

theorem isRecordName_append (middle : String) :
    isRecordName ("consent_" ++ middle ++ ".json") = true := by
  simp only [isRecordName, String.toList_append, Bool.and_eq_true, List.isPrefixOf_iff_prefix,
    List.isSuffixOf_iff_suffix]
  exact ⟨⟨_, (List.append_assoc _ _ _).symm⟩, List.suffix_append _ _⟩

/-- A file that no lookup finds keeps its name. -/
theorem isRecordName_of_renamed {other : String} (h : Renamed sha name other) :
    name = other ∨ isRecordName name = true := by
  induction h with
  | refl => exact Or.inl rfl
  | lookup _ _ _ ih =>
    rcases ih with rfl | ih
    · exact Or.inr (isRecordName_append _)
    · exact Or.inr ih

/-! ### Revocation -/

/-- What a revocation leaves was there, and is not the file that the token leads to. -/
theorem revokeToken_spec (sha : Sha256) (dir : Directory) (token : String) {name : String}
    {contents : Option ConsentRecord} (h : (revokeToken sha dir token).2.read name = some contents) :
    dir.read name = some contents ∧ (token ≠ "" → name ≠ tokenFilename sha token ∧
      (name = legacyFilename token → '/' ∉ token.toList →
        dir.isFile (tokenFilename sha token) = true)) := by
  unfold revokeToken at h
  split_ifs at h with htoken
  · exact ⟨h, fun hne => absurd htoken hne⟩
  · rcases findTokenFile_cases sha dir token with ⟨hfind, hfile⟩ |
      ⟨hfind, hfile, hlegacy⟩ | ⟨hfind, hfile, hslash, hlegacy⟩
    · rw [hfind] at h
      obtain ⟨hne, hread⟩ := Folder.read_of_remove h
      exact ⟨hread, fun _ => ⟨hne, fun _ _ => hfile⟩⟩
    · rw [hfind] at h
      have hthere : dir.isFile name = true := Folder.isFile_iff.2 ⟨contents, h⟩
      refine ⟨h, fun _ => ⟨?_, ?_⟩⟩
      · rintro rfl
        rw [hthere] at hfile
        cases hfile
      · rintro rfl hslash
        rw [hlegacy.resolve_left hslash] at hthere
        cases hthere
    · rw [hfind] at h
      obtain ⟨hne, hread⟩ := Folder.read_of_remove h
      obtain ⟨found, hfound⟩ := Folder.isFile_iff.1 hlegacy
      rw [Folder.read_rename hfound, if_neg hne] at hread
      split_ifs at hread with hname
      exact ⟨hread, fun _ => ⟨hne, fun heq => absurd heq hname⟩⟩

theorem revokeEach_spec {tokens : List String} {revoked n : ℕ} {after : Directory}
    (hrevoke : revokeEach sha dir tokens revoked = (.ok n, after))
    (h : after.read name = some contents) :
    dir.read name = some contents ∧ ∀ token ∈ tokens, token ≠ "" →
      name ≠ tokenFilename sha token ∧ (name = legacyFilename token → '/' ∉ token.toList →
        dir.isFile (tokenFilename sha token) = true) := by
  induction tokens generalizing dir revoked with
  | nil =>
    cases hrevoke
    exact ⟨h, by simp⟩
  | cons token tokens ih =>
    simp only [revokeEach] at hrevoke
    have hone := @revokeToken_spec sha dir token
    cases hresult : revokeToken sha dir token with
    | mk result dir' =>
      rw [hresult] at hrevoke hone
      cases result with
      | error error => cases hrevoke
      | ok removed =>
        obtain ⟨hread, hrest⟩ := ih hrevoke
        obtain ⟨hthere, hfirst⟩ := hone hread
        refine ⟨hthere, ?_⟩
        rw [List.forall_mem_cons]
        refine ⟨hfirst, fun other hother hne => ⟨(hrest other hother hne).1, fun hname hslash => ?_⟩⟩
        obtain ⟨found, hfound⟩ := Folder.isFile_iff.1 ((hrest other hother hne).2 hname hslash)
        exact Folder.isFile_iff.2 ⟨found, (hone hfound).1⟩

theorem inert_revokeEach (h : Inert sha dir) (tokens : List String) (revoked : ℕ) :
    Inert sha (revokeEach sha dir tokens revoked).2 := by
  induction tokens generalizing dir revoked with
  | nil => exact h
  | cons token tokens ih =>
    have hinert := inert_revokeToken h token
    simp only [revokeEach]
    cases hresult : revokeToken sha dir token with
    | mk result dir' =>
      rw [hresult] at hinert
      cases result with
      | error error => exact hinert
      | ok removed => exact ih hinert _

/-- Where `revoke_all` succeeds, only records are left that no lookups bring to the file of a
string they allow. -/
theorem inert_revokeAll {options : GrantOptions} {random : Except ConsentError (List UInt8)}
    {outcome : GrantOutcome} {after : Directory} (hlist : options.listTokens = false)
    (hdry : options.dryRun = false) (hall : options.revokeAll = true)
    (hgrant : grant sha dir now options random = (.ok outcome, after)) (hfound : Found sha dir now) :
    Inert sha after := by
  obtain ⟨hread, hlisted⟩ := listTokens_spec dir now
  simp only [grant, hlist, hdry, hall, if_true, Bool.false_eq_true, if_false] at hgrant
  intro name record hrecord
  obtain ⟨n, hrevoke⟩ : ∃ n, revokeEach sha (listTokens dir now).2
      ((listTokens dir now).1.map (·.token)) 0 = (.ok n, after) := by
    cases hresult : revokeEach sha (listTokens dir now).2
        ((listTokens dir now).1.map (·.token)) 0 with
    | mk result dir' =>
      rw [hresult] at hgrant
      cases result with
      | error error => cases hgrant
      | ok n =>
        cases hgrant
        exact ⟨n, rfl⟩
  obtain ⟨hleft, hmissed⟩ := revokeEach_spec hrevoke hrecord
  obtain ⟨hthere, hlive⟩ := (hread _ _).1 hleft
  by_cases hname : isRecordName name = true
  · have hle : now ≤ record.expiresAt := by
      by_contra hlt
      exact hlive ⟨hname, record, rfl, not_le.1 hlt⟩
    rcases hfound name record hthere hname hle with hstray | ⟨hne, hleads⟩
    · exact hstray
    · -- the token of the record is among those revoked, and leads to its file
      obtain ⟨hhashed, hlegacy⟩ := hmissed _ (hlisted name record hthere hname hle) hne
      rcases hleads with heq | ⟨heq, hslash, hdead⟩
      · exact absurd heq hhashed
      · obtain ⟨contents, hcontents⟩ := Folder.isFile_iff.1 (hlegacy heq hslash)
        obtain ⟨hthere', hlive'⟩ := (hread _ _).1 hcontents
        refine absurd ⟨contents, hthere', ?_⟩ hdead
        rintro found rfl
        by_contra hlt
        exact hlive' ⟨isRecordName_append _, found, rfl, not_le.1 hlt⟩
  · intro token _ _ hrenamed
    rcases isRecordName_of_renamed hrenamed with rfl | hrecordName
    · exact hname (isRecordName_append _)
    · exact hname hrecordName

/-- A call that issues no token leaves an inert directory inert. -/
theorem inert_perform (h : Inert sha dir) (now : ℤ) {call : Call} (hcall : call.issues = false) :
    Inert sha (perform sha dir now call) := by
  cases call with
  | issueToken command ttl random => cases hcall
  | verifyToken command token => exact (verifyToken_inert h now command token).2
  | consumeToken token =>
    have hinert := inert_revokeToken h token
    simp only [perform, consumeToken]
    split
    · next heq =>
      rw [heq] at hinert
      exact hinert
    · next heq =>
      rw [heq] at hinert
      exact hinert
  | revokeToken token => exact inert_revokeToken h token
  | listTokens => exact inert_listTokens h now
  | authorize command options host => exact (authorize_inert h command host).2
  | grant options random =>
    simp only [Call.issues, Bool.and_eq_false_iff, Bool.not_eq_false', decide_eq_false_iff_not]
      at hcall
    simp only [perform, grant]
    split_ifs with hlist hdry hall hrevoke
    · exact inert_listTokens h now
    · exact h
    · exact inert_revokeEach (inert_listTokens h now) _ 0
    · have hinert := inert_revokeToken h (options.revoke.getD "")
      split
      · next heq =>
        rw [heq] at hinert
        exact hinert
      · next heq =>
        rw [heq] at hinert
        exact hinert
    · simp [hlist, hdry, hall, hrevoke] at hcall

theorem inert_run (h : Inert sha dir) {calls : List (ℤ × Call)}
    (hcalls : ∀ c ∈ calls, c.2.issues = false) : Inert sha (run sha dir calls) := by
  induction calls generalizing dir with
  | nil => exact h
  | cons c calls ih =>
    rw [List.forall_mem_cons] at hcalls
    exact ih (inert_perform h c.1 hcalls.1) hcalls.2

/-! ### What is authorized -/

/-- No string and no command is authorized any more, whatever is called before, until a token is
issued. -/
def Closed (sha : Sha256) (dir : Directory) : Prop :=
  ∀ calls : List (ℤ × Call), (∀ c ∈ calls, c.2.issues = false) →
    ∀ (now : ℤ) (command : String) (options : ConsentOptions) (host : ConsentStore.Host),
      options.yes = false → (authorize sha (run sha dir calls) now command options host).1 ≠ .ok ()

theorem closed_of_inert (h : Inert sha dir) : Closed sha dir :=
  fun _ hcalls _ command _ host hyes => (authorize_inert (inert_run h hcalls) command host).1 hyes

theorem findTokenFile_of_isFile (h : dir.isFile (tokenFilename sha token) = true) :
    findTokenFile sha dir token = (.ok (tokenFilename sha token), dir) := if_pos h

theorem findTokenFile_of_legacy (h : dir.isFile (tokenFilename sha token) = false)
    (hslash : '/' ∉ token.toList) (hlegacy : dir.isFile (legacyFilename token) = true) :
    findTokenFile sha dir token = (.ok (tokenFilename sha token),
      dir.rename (legacyFilename token) (tokenFilename sha token)) := by
  simp [findTokenFile, h, hslash, hlegacy]

/-- A lookup by way of a call that is refused gives the file its hashed name. -/
theorem exists_lookup (sha : Sha256) (htoken : token ≠ "") (hslash : '/' ∉ token.toList)
    (h : dir.read (legacyFilename token) = some (some record)) :
    ∃ calls : List (ℤ × Call), (∀ c ∈ calls, c.2.issues = false) ∧
      (run sha dir calls).read (tokenFilename sha token) = some (some record) := by
  have hlegacy : dir.isFile (legacyFilename token) = true := Folder.isFile_iff.2 ⟨_, h⟩
  have hrefused : ∀ dir : Directory, dir.isFile (tokenFilename sha token) = false →
      dir.read (legacyFilename token) = some (some record) →
        (perform sha dir 0 (.verifyToken (record.command ++ "!") token)).read
          (tokenFilename sha token) = some (some record) := by
    intro dir hfile hread
    have hrenamed : (dir.rename (legacyFilename token) (tokenFilename sha token)).read
        (tokenFilename sha token) = some (some record) := by
      rw [Folder.read_rename hread, if_pos rfl]
    have hcommand : record.command ≠ record.command ++ "!" := by
      intro heq
      simpa using congrArg String.length heq
    simp only [perform, verifyToken, if_neg htoken,
      findTokenFile_of_legacy hfile hslash (Folder.isFile_iff.2 ⟨_, hread⟩), hrenamed,
      if_pos hcommand]
    split_ifs
    · exact hrenamed
    · exact hrenamed
  cases hfile : dir.isFile (tokenFilename sha token) with
  | false => exact ⟨[(0, .verifyToken (record.command ++ "!") token)], by simp [Call.issues],
      hrefused dir hfile h⟩
  | true =>
    by_cases hsame : legacyFilename token = tokenFilename sha token
    · exact ⟨[], by simp, hsame ▸ h⟩
    · -- what is under the hashed name is consumed first
      have hconsume : perform sha dir 0 (.consumeToken token) =
          dir.remove (tokenFilename sha token) := by
        simp [perform, consumeToken, revokeToken, htoken, findTokenFile_of_isFile hfile]
      refine ⟨[(0, .consumeToken token), (0, .verifyToken (record.command ++ "!") token)],
        by simp [Call.issues], ?_⟩
      change (perform sha (perform sha dir 0 (.consumeToken token)) 0
        (.verifyToken (record.command ++ "!") token)).read _ = _
      rw [hconsume]
      refine hrefused _ ?_ ?_
      · simp [Folder.isFile, Folder.read_remove]
      · rw [Folder.read_remove, if_neg hsame, h]

theorem exists_renamed {other : String} (h : Renamed sha name other)
    (hread : dir.read name = some (some record)) :
    ∃ calls : List (ℤ × Call), (∀ c ∈ calls, c.2.issues = false) ∧
      (run sha dir calls).read other = some (some record) := by
  induction h with
  | refl => exact ⟨[], by simp, hread⟩
  | lookup htoken hslash _ ih =>
    obtain ⟨calls, hcalls, hbefore⟩ := ih
    obtain ⟨more, hmore, hafter⟩ := exists_lookup sha htoken hslash hbefore
    refine ⟨calls ++ more, fun c hc => ?_, ?_⟩
    · rcases List.mem_append.1 hc with hc | hc
      · exact hcalls c hc
      · exact hmore c hc
    · rw [run, List.foldl_append]
      exact hafter

/-- A record in the file of a string that it allows is authorized for its command. -/
theorem authorize_of_read (htoken : token ≠ "")
    (hread : dir.read (tokenFilename sha token) = some (some record))
    (hadmits : record.token = none ∨ record.token = some token) :
    (authorize sha dir record.expiresAt record.command { consentToken := some token }
      ConsentStore.emptyHost).1 = .ok () := by
  have hfile : dir.isFile (tokenFilename sha token) = true := Folder.isFile_iff.2 ⟨_, hread⟩
  have hallowed : ¬ (record.token ≠ none ∧ record.token ≠ some token) := by
    rw [not_and_or, not_not, not_not]
    exact hadmits
  have hselect : selectToken { consentToken := some token } ConsentStore.emptyHost = some token := by
    simp [selectToken, ConsentStore.given, Option.filter, htoken]
  have hverify : verifyToken sha dir record.expiresAt record.command token = (.ok (), dir) := by
    simp [verifyToken, htoken, findTokenFile_of_isFile hfile, hread, hallowed]
  simp [authorize, hselect, verifyAndConsume, hverify, lockToken, revokeToken, htoken,
    findTokenFile_of_isFile hfile, hfile]

/-- Nothing is authorized exactly when no lookups bring a record to the file of a string that it
allows. -/
theorem closed_iff_inert : Closed sha dir ↔ Inert sha dir := by
  refine ⟨fun h name record hread token htoken hadmits hrenamed => ?_, closed_of_inert⟩
  obtain ⟨calls, hcalls, hthere⟩ := exists_renamed hrenamed hread
  exact h calls hcalls _ _ _ _ rfl (authorize_of_read htoken hthere hadmits)

/-- When the token that each live record is listed with leads to its file, revoking everything
closes the store.  In any case it is closed exactly when what is left is inert. -/
theorem revokeAll_closes (sha : Sha256) (dir : Directory) (now : ℤ) (options : GrantOptions)
    (random : Except ConsentError (List UInt8)) (outcome : GrantOutcome) (after : Directory)
    (hlist : options.listTokens = false) (hdry : options.dryRun = false)
    (hall : options.revokeAll = true)
    (hgrant : grant sha dir now options random = (.ok outcome, after)) :
    (Found sha dir now → Closed sha after) ∧ (Closed sha after ↔ Inert sha after) :=
  ⟨fun hfound => closed_of_inert (inert_revokeAll hlist hdry hall hgrant hfound),
    closed_iff_inert⟩

/-! ### Samples -/

/-- A record of the first version. -/
def sampleRecord : ConsentRecord :=
  { command := "execute", issuedAt := 0, expiresAt := 100, token := none }

theorem revokeAll_closes_sample :
    Closed ConsentStore.sampleSha
      (grant ConsentStore.sampleSha [("consent_old.json", some sampleRecord)] 50
        { revokeAll := true } (.ok [])).2 := by
  refine (revokeAll_closes ConsentStore.sampleSha [("consent_old.json", some sampleRecord)] 50
    { revokeAll := true } (.ok []) (.revokeAll 1) _ rfl rfl rfl ?_).1 ?_
  · exact Prod.ext (by decide +kernel) rfl
  · intro name record hread _ _
    rw [Folder.read_cons] at hread
    split_ifs at hread with hname
    · cases hread
      subst hname
      refine Or.inr ⟨by decide, Or.inr ⟨by decide, by decide, ?_⟩⟩
      rintro ⟨contents, hlive, -⟩
      rw [Folder.read_cons, if_neg (by decide)] at hlive
      cases hlive
    · cases hread

/-- A record of the first version for the token `consent_x` is listed as the token `x`, and outlives
the revocation of everything. -/
theorem repeated_start_survives :
    (grant ConsentStore.sampleSha [("consent_consent_x.json", some sampleRecord)] 50
        { revokeAll := true } (.ok [])).1 = .ok (.revokeAll 0) ∧
      (authorize ConsentStore.sampleSha
        (grant ConsentStore.sampleSha [("consent_consent_x.json", some sampleRecord)] 50
          { revokeAll := true } (.ok [])).2 60 "execute" { consentToken := some "consent_x" }
        ConsentStore.emptyHost).1 = .ok () := by
  decide +kernel

end EraseMe.Identity.ConsentGrant
