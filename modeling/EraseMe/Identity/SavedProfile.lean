import EraseMe.Identity.ProfileReading

/-!
# A saved profile is read back

The text that `serde_json` prints for a profile is decoded as the record of its value
(`decodeGoProfileJson_document`), and this is the profile.  So `loadProfile` returns what
`saveProfile` was given (`loadProfile_saveProfile`).

Nothing is assumed of the printed text but that it is JSON (`SerdeJson.Lawful`).
-/

namespace EraseMe.Identity.Secrets

open Json

/-- `serde_json` prints JSON, a header on one line, and reads every text up to its depth. -/
structure SerdeJson.Lawful (serde : SerdeJson) : Prop where
  toVec_document : ∀ v, Plain v → Document v (serde.toVec v)
  toVec_line : ∀ v, Plain v → 10 ∉ serde.toVec v
  toVecPretty_document : ∀ v, Plain v → Document v (serde.toVecPretty v)
  fromSlice_document : ∀ v s, v.depth ≤ maxDepth → Document v s → serde.fromSlice s = some v

variable {serde : SerdeJson}

/-! ### The decoder -/

theorem readStrings_stringsValue (texts : List String) :
    readStrings (stringsValue texts) = some texts := by
  rw [stringsValue, readStrings]
  induction texts with
  | nil => rfl
  | cons text texts ih => simp [readScalar, ih]

theorem readOptional_optionValue (value : Option String) :
    readOptional (optionValue value) = some value := by
  cases value <;> rfl

/-- The names are in lower case already. -/
theorem foldName_names : ∀ name ∈ ["full_name", "name_variants", "date_of_birth", "addresses",
    "email_addresses", "phone_numbers", "jurisdictions", "street", "city", "postal_code", "country",
    "state", "valid_from", "valid_to", "version", "nonce", "algorithm"], foldName name = name := by
  decide

theorem readRecord_addressValue (address : ProfileAddress) :
    readRecord emptyAddress addressField (addressValue address) = some address := by
  simp [addressValue, readRecord, foldName_names, addressField, readScalar,
    readOptional_optionValue]

theorem readAddresses_map (addresses : List ProfileAddress) :
    readAddresses (.array (addresses.map addressValue)) = some addresses := by
  rw [readAddresses]
  induction addresses with
  | nil => rfl
  | cons address addresses ih => simp [readRecord_addressValue, ih]

theorem readRecord_profileValue (profile : Profile) :
    readRecord { fullName := "" } profileField (profileValue profile) = some profile := by
  simp [profileValue, readRecord, foldName_names, profileField, readScalar,
    readOptional_optionValue, readStrings_stringsValue, readAddresses_map]

theorem readRecord_envelopeValue {envelope : Envelope} (h : i64Min ≤ envelope.version)
    (h' : envelope.version ≤ i64Max) :
    readRecord ⟨0, "", ""⟩ envelopeField (envelopeValue envelope) = some envelope := by
  simp [envelopeValue, readRecord, foldName_names, envelopeField, readScalar, readInteger, asI64,
    h, h']

/-! ### The text of a profile is read as the profile -/

theorem shallow_optionValue (value : Option String) : Shallow 0 (optionValue value) := by
  cases value with
  | none => exact shallow_of_isText rfl
  | some text => exact shallow_of_isText rfl

theorem shallow_stringsValue (texts : List String) : Shallow 1 (stringsValue texts) := by
  refine shallow_array fun v hv => ?_
  obtain ⟨text, -, rfl⟩ := List.mem_map.1 hv
  exact shallow_of_isText rfl

theorem shallow_addressValue (address : ProfileAddress) : Shallow 1 (addressValue address) := by
  refine shallow_object ?_
  simp only [List.forall_mem_cons, List.not_mem_nil, false_implies, implies_true, and_true]
  exact ⟨shallow_of_isText rfl, shallow_of_isText rfl, shallow_of_isText rfl,
    shallow_of_isText rfl, shallow_optionValue _, shallow_optionValue _, shallow_optionValue _⟩

theorem shallow_profileValue (profile : Profile) : Shallow 3 (profileValue profile) := by
  have hstrings (texts : List String) : Shallow 2 (stringsValue texts) :=
    (shallow_stringsValue texts).mono (by decide)
  have haddresses : Shallow 2 (.array (profile.addresses.map addressValue)) := by
    refine shallow_array fun v hv => ?_
    obtain ⟨address, -, rfl⟩ := List.mem_map.1 hv
    exact shallow_addressValue address
  refine shallow_object ?_
  simp only [List.forall_mem_cons, List.not_mem_nil, false_implies, implies_true, and_true]
  exact ⟨(shallow_of_isText rfl).mono (by decide), hstrings _,
    (shallow_optionValue _).mono (by decide), haddresses, hstrings _, hstrings _, hstrings _⟩

theorem plain_profileValue (profile : Profile) : Plain (profileValue profile) :=
  plain_of_numberless _ (shallow_profileValue profile).2

theorem document_text {v : Json} {t : Bytes} (h : Text v t) : Document v t :=
  ⟨[], t, [], blank_nil, h, blank_nil, by simp⟩

theorem SerdeJson.Lawful.texts (hserde : serde.Lawful) : serde.ReadsTexts :=
  fun v s _ hdepth hs => hserde.fromSlice_document v s hdepth hs

/-- Whatever JSON is printed for a profile, it is read as this profile. -/
theorem decodeGoProfileJson_profile (hserde : serde.Lawful) (profile : Profile) {s : Bytes}
    (h : Document (profileValue profile) s) : decodeGoProfileJson serde s = some profile := by
  obtain ⟨hdepth, hnumbers⟩ := shallow_profileValue profile
  -- there are no numbers in it, so it does not matter what they stand for
  have hs : SpellsDocument LooseText (fun _ => .inl 0) (profileValue profile) s :=
    ((spellsDocument_iff_document hnumbers).2 h).mono fun _ _ => looseText_of_text
  rw [decodeGoProfileJson_document hserde.texts hs (hdepth.trans (by decide)),
    readRecord_profileValue]

theorem parseEnvelope_toVec (hserde : serde.Lawful) {envelope : Envelope}
    (h : i64Min ≤ envelope.version) (h' : envelope.version ≤ i64Max) :
    parseEnvelope serde (serde.toVec (envelopeValue envelope)) = some envelope ∧
      10 ∉ serde.toVec (envelopeValue envelope) := by
  have hplain : Plain (envelopeValue envelope) := by
    simp only [envelopeValue, Plain, PlainMembers, and_true, Machine]
    exact ⟨h, lt_of_le_of_lt h' (by decide)⟩
  have hdepth : (envelopeValue envelope).depth ≤ maxDepth := by
    simp [envelopeValue, depth, depthFields, maxDepth]
  refine ⟨?_, hserde.toVec_line _ hplain⟩
  rw [parseEnvelope, hserde.fromSlice_document _ _ hdepth (hserde.toVec_document _ hplain),
    Option.bind_some, readRecord_envelopeValue h h']

/-! ### Saving and loading -/

theorem splitHeader_append {header body : Bytes} (h : 10 ∉ header) :
    splitHeader (header ++ 10 :: body) = some (header, body) := by
  have hne : ∀ b ∈ header, decide (b ≠ 10) = true := by
    intro b hb
    exact decide_eq_true fun h10 => h (h10 ▸ hb)
  rw [splitHeader, if_pos (by simp), List.takeWhile_append_of_pos hne,
    List.dropWhile_append_of_pos hne]
  simp

theorem replaceTarget_ok {files files' : Files} {target l temporary : Location}
    {encrypted : Bytes} {f : SaveFaults}
    (h : replaceTarget files target temporary encrypted f = (.ok l, files')) :
    files' target = some (.file encrypted) := by
  unfold replaceTarget at h
  split at h
  · cases h
  · split_ifs at h
    · cases h
    · cases h
      exact put_self _ _ _

/-- A successful save found a key and put the envelope in the place of the target. -/
theorem saveProfile_ok {codec : Codec} {profile : Profile} {path : Paths.Path}
    {paths : ProfilePaths} {r r' : Resolver} {s s' : State} {f : SaveFaults} {nonce : Bytes}
    {suffix : List Char} {target : Location}
    (h : saveProfile codec profile path paths r s f nonce suffix = (.ok target, r', s')) :
    ∃ key, (resolveExisting codec.derive r s.entry f.get).1 = .ok key ∧
      s'.files (paths.resolveWrite path) =
        some (.file (encryptProfile codec (codec.profilePlaintext profile) key nonce)) := by
  unfold saveProfile at h
  simp only at h
  split at h
  · cases h
  · split_ifs at h
    · cases h
    · split at h
      · cases h
      · rename_i key r'' hkey
        split at h
        · cases h
        · rename_i name hname
          refine ⟨key, by rw [hkey], ?_⟩
          cases hreplace : replaceTarget
              (s.files.makeDirs (paths.resolveWrite path).dropLast
                (paths.resolveWrite path).dropLast.length)
              (paths.resolveWrite path) (temporary (paths.resolveWrite path) name suffix)
              (encryptProfile codec (codec.profilePlaintext profile) key nonce) f with
          | mk result files' =>
            rw [hreplace] at h
            cases h
            exact replaceTarget_ok hreplace

/-- A file in the place of the target is the one that is found. -/
theorem resolve_of_file {path : Paths.Path} {paths : ProfilePaths} {files : Files} {raw : Bytes}
    (h : files (paths.resolveWrite path) = some (.file raw)) :
    files (paths.resolve files path) = some (.file raw) := by
  have hresolve : paths.resolve files path = paths.resolveWrite path := by
    unfold ProfilePaths.resolve
    rw [if_neg (by simp [h])]
  rw [hresolve, h]

/-- Reading a file of a header and a body. -/
theorem loadProfile_of_parts {codec : Codec} {path : Paths.Path} {paths : ProfilePaths}
    {r : Resolver} {s : State} {raw headerBytes body : Bytes} {header : Envelope}
    {key : MasterKey} (hfile : s.files (paths.resolve s.files path) = some (.file raw))
    (hsplit : splitHeader raw = some (headerBytes, body))
    (hparse : codec.parseHeader headerBytes = some header) (hversion : header.version ≠ 0)
    (hkey : (resolveExisting codec.derive r s.entry none).1 = .ok key) :
    loadProfile codec path paths r s = openEnvelope codec header headerBytes body key := by
  rw [loadProfile, hfile]
  simp only [hsplit, hparse]
  rw [if_neg hversion, hkey]

/-- A profile that was saved is read back unchanged with the same path, snapshot and key. -/
theorem loadProfile_saveProfile (hserde : serde.Lawful) {cipher : Cipher} {derive : Derivation}
    (hcipher : ∀ key nonce aad plain,
      cipher.decrypt key nonce aad (cipher.encrypt key nonce aad plain) = some plain)
    {profile : Profile} {path : Paths.Path} {paths : ProfilePaths} {r r' r₁ : Resolver}
    {s s' : State} {f : SaveFaults} {nonce : Bytes} {suffix : List Char} {target : Location}
    {entry₁ : Entry} (hnonce : nonce.length = 12)
    (hsave : saveProfile (profileCodec serde cipher derive) profile path paths r s f nonce suffix =
      (.ok target, r', s'))
    (hkey : (resolveExisting derive r₁ entry₁ none).1 = (resolveExisting derive r s.entry f.get).1)
    (sha256 : Bytes → Bytes) :
    ∃ q, loadProfile (profileCodec serde cipher derive) path paths r₁ ⟨entry₁, s'.files⟩ = .ok q ∧
      q = profile ∧ hashProfile sha256 q = hashProfile sha256 profile := by
  refine ⟨profile, ?_, rfl, rfl⟩
  obtain ⟨key, hfound, hfile⟩ := saveProfile_ok hsave
  have hparse : ∀ envelope : Envelope, envelope.version = 2 →
      parseEnvelope serde (serde.toVec (envelopeValue envelope)) = some envelope ∧
        10 ∉ serde.toVec (envelopeValue envelope) := by
    intro envelope hversion
    exact parseEnvelope_toVec hserde (by rw [hversion]; decide) (by rw [hversion]; decide)
  obtain ⟨hheader, hline⟩ := hparse ⟨2, String.ofList (Hex.encode nonce), "AES-256-GCM"⟩ rfl
  have hdocument : Document (profileValue profile) (serde.toVecPretty (profileValue profile)) :=
    hserde.toVecPretty_document _ (plain_profileValue profile)
  have hopen : openEnvelope (profileCodec serde cipher derive)
      ⟨2, String.ofList (Hex.encode nonce), "AES-256-GCM"⟩
      (serde.toVec (envelopeValue ⟨2, String.ofList (Hex.encode nonce), "AES-256-GCM"⟩))
      (cipher.encrypt key nonce
        (serde.toVec (envelopeValue ⟨2, String.ofList (Hex.encode nonce), "AES-256-GCM"⟩))
        (serde.toVecPretty (profileValue profile))) key = .ok profile := by
    rw [openEnvelope, String.toList_ofList, Hex.decode_encode]
    simp only [hnonce, ne_eq, not_true, if_false, profileCodec, hcipher,
      decodeGoProfileJson_profile hserde profile hdocument]
  have hsplit : splitHeader (encryptProfile (profileCodec serde cipher derive)
      (serde.toVecPretty (profileValue profile)) key nonce) = some _ := splitHeader_append hline
  have hresolve : (resolveExisting (profileCodec serde cipher derive).derive r₁ entry₁ none).1 =
      .ok key := hkey.trans hfound
  have hload := loadProfile_of_parts (s := ⟨entry₁, s'.files⟩) (resolve_of_file hfile) hsplit
    hheader (by simp) hresolve
  exact hload.trans hopen

/-! ### A profile at home -/

/-- A library that prints. -/
def printedSerde : SerdeJson := ⟨compact, pretty, read⟩

theorem printedSerde_lawful : printedSerde.Lawful where
  toVec_document _ h := document_text (text_compact h)
  toVec_line v _ := newline_not_mem_compact v
  toVecPretty_document _ h := document_text (text_pretty h)
  fromSlice_document _ _ _ h := read_document h

/-- A sealed text starts with its key. -/
def keyedCipher : Cipher where
  encrypt key _ _ plain := key.bytes ++ plain
  decrypt key _ _ sealed := if sealed.take 32 = key.bytes then some (sealed.drop 32) else none

theorem keyedCipher_decrypt (key : MasterKey) (nonce aad plain : Bytes) :
    keyedCipher.decrypt key nonce aad (keyedCipher.encrypt key nonce aad plain) = some plain := by
  have htake : (key.bytes ++ plain).take 32 = key.bytes := List.take_left' key.length_bytes
  have hdrop : (key.bytes ++ plain).drop 32 = plain := List.drop_left' key.length_bytes
  change (if (key.bytes ++ plain).take 32 = key.bytes then some ((key.bytes ++ plain).drop 32)
    else none) = some plain
  rw [htake, hdrop, if_pos rfl]

/-- A profile with odd characters. -/
def zoe : Profile where
  fullName := "Zoë \"Z\" \\ Ω\n"
  nameVariants := ["", "\t"]
  dateOfBirth := some ""
  addresses := [{ street := "1", city := "", postalCode := "é", country := "DE" }]

/-- A profile under the other basename, and a key in the keyring. -/
def movedState : State where
  entry := some (encodeKey oldKey)
  files l := if l = withFileName (homePaths.resolveWrite []) "identity.enc".toList then
    some (.file [1]) else none

/-- The profile, saved. -/
def zoeSaved : Except ProfileError Location × Resolver × State :=
  saveProfile (profileCodec printedSerde keyedCipher fun _ => none) zoe [] homePaths bareResolver
    movedState {} (List.replicate 12 7) "1-2".toList

theorem loadProfile_saveProfile_zoe :
    zoeSaved.1 = .ok (homePaths.resolveWrite []) ∧
      ∃ q, loadProfile (profileCodec printedSerde keyedCipher fun _ => none) [] homePaths
          bareResolver ⟨movedState.entry, zoeSaved.2.2.files⟩ = .ok q ∧
        q = zoe ∧ hashProfile id q = hashProfile id zoe := by
  have hsaved : zoeSaved.1 = .ok (homePaths.resolveWrite []) := by decide
  exact ⟨hsaved, loadProfile_saveProfile printedSerde_lawful keyedCipher_decrypt (by simp)
    (Prod.ext hsaved rfl) rfl id⟩

end EraseMe.Identity.Secrets
