import EraseMe.Library.Base64Text
import EraseMe.Library.Cbc

/-!
# `storage::encryption`: the envelopes of the event store

An envelope is a header, a salt (not in V1) and a token.  A token is a base64 Fernet token, a raw
Fernet frame or the raw AES-GCM frame that an earlier version wrote.  `decryptAny` reads them all
(`decryptAny_envelope`): the three kinds share their first octet, and the order of the attempts
with their lengths and keys tells them apart.

AES, AES-GCM, HMAC and PBKDF2 are parameters; chaining, padding, base64 and HKDF are not.
-/

namespace EraseMe.Encryption

abbrev Bytes := List UInt8

/-- The primitives: AES on one block, AES-256-GCM, HMAC-SHA256 and PBKDF2. -/
structure Crypto where
  encryptBlock : Bytes → Bytes → Bytes
  decryptBlock : Bytes → Bytes → Bytes
  gcmEncrypt : Bytes → Bytes → Bytes → Bytes
  gcmDecrypt : Bytes → Bytes → Bytes → Option Bytes
  hmac : Bytes → Bytes → Bytes
  pbkdf2 : Bytes → Bytes → ℕ → Bytes

def v1Header : Bytes := Utf8.encode "SYMERASEME_ENCv1\n"
def v2Header : Bytes := Utf8.encode "SYMERASEME_ENCv2\n"
def v3Header : Bytes := Utf8.encode "SYMERASEME_ENCv3\n"
def v2SaltLen : ℕ := 16
def v3SaltLen : ℕ := 16
def v1FixedSalt : Bytes := Utf8.encode "symeraseme-db-encryption-v1"
def pbkdf2Iterations : ℕ := 600000
def v3HkdfInfo : Bytes := Utf8.encode "symeraseme-db-encryption-v3"

def masterKeyLen : ℕ := 32
def fernetVersion : UInt8 := 0x80
def fernetIvLen : ℕ := 16
def fernetMacLen : ℕ := 32
def fernetBlockLen : ℕ := 16
def fernetMinFrameLen : ℕ := 1 + 8 + fernetIvLen + fernetBlockLen + fernetMacLen
def fernetSigningKeyLen : ℕ := 16
def legacyGoNonceLen : ℕ := 12
def legacyGoGcmTagLen : ℕ := 16
def legacyGoMinFrameLen : ℕ := 1 + 8 + legacyGoNonceLen + legacyGoGcmTagLen + fernetMacLen

/-- Why an envelope is not read. -/
inductive EncryptionError
  | invalidMasterKeyLength (actual : ℕ)
  | unsupportedEnvelope
  | truncatedEnvelope (version : ℕ)
  | truncatedToken
  | invalidBase64
  | unsupportedFernetVersion (version : UInt8)
  | authenticationFailed
  | invalidCiphertextLength
  | invalidPadding
  | legacyTokenInvalid
  deriving DecidableEq, Repr

variable (c : Crypto)

/-! ### Writing -/

def toBeBytes (timestamp : UInt64) : Bytes :=
  (List.range 8).map fun i => UInt8.ofNat (timestamp.toNat / 256 ^ (7 - i))

/-- A frame before its authentication. -/
def fernetBody (key iv : Bytes) (timestamp : UInt64) (plaintext : Bytes) : Bytes :=
  fernetVersion :: toBeBytes timestamp ++ iv ++
    Cbc.encrypt fernetBlockLen (c.encryptBlock (key.drop fernetSigningKeyLen)) iv plaintext

/-- A frame with its tag. -/
def fernetFrame (key iv : Bytes) (timestamp : UInt64) (plaintext : Bytes) : Bytes :=
  let body := fernetBody c key iv timestamp plaintext
  body ++ c.hmac (key.take fernetSigningKeyLen) body

/-- A token of a frame. -/
def encryptStandardFernet (plaintext key iv : Bytes) (timestamp : UInt64) :
    Except EncryptionError Bytes :=
  if iv.length ≠ fernetIvLen then .error .invalidCiphertextLength
  else .ok (Base64.encodeOctets Base64.urlSafe (fernetFrame c key iv timestamp plaintext))

def validateMasterKey (key : Bytes) : Except EncryptionError Unit :=
  if key.length = masterKeyLen then .ok () else .error (.invalidMasterKeyLength key.length)

/-- HKDF-SHA256 for one block. -/
def deriveV3Key (masterKey salt : Bytes) : Bytes :=
  c.hmac (c.hmac salt masterKey) (v3HkdfInfo ++ [1])

/-- Write an envelope. -/
def encryptV3WithMaterial (plaintext masterKey salt iv : Bytes) (timestamp : UInt64) :
    Except EncryptionError Bytes := do
  validateMasterKey masterKey
  if salt.length ≠ v3SaltLen ∨ iv.length ≠ fernetIvLen then throw .invalidCiphertextLength
  let token ← encryptStandardFernet c plaintext (deriveV3Key c masterKey salt) iv timestamp
  return v3Header ++ salt ++ token

/-! ### Reading -/

/-- The frame of a token: decoded, or the token itself when it looks like one. -/
def standardFrame (token : Bytes) : Except EncryptionError Bytes :=
  match Base64.decodeOctets Base64.urlSafe token with
  | some frame => .ok frame
  | none =>
      if token.length ≥ fernetMinFrameLen ∧ token.head? = some fernetVersion then .ok token
      else .error .invalidBase64

/-- The plaintext of an authenticated ciphertext. -/
def decryptCbc (key iv ciphertext : Bytes) : Except EncryptionError Bytes :=
  if ciphertext = [] ∨ ciphertext.length % fernetBlockLen ≠ 0 then .error .invalidCiphertextLength
  else
    match Cbc.decrypt fernetBlockLen (c.decryptBlock (key.drop fernetSigningKeyLen)) iv
        ciphertext with
    | none => .error .invalidPadding
    | some plaintext => .ok plaintext

/-- Read a frame. -/
def decryptFrame (frame key : Bytes) : Except EncryptionError Bytes :=
  if frame.length < fernetMinFrameLen then .error .truncatedToken
  else if frame.head? ≠ some fernetVersion then
    .error (.unsupportedFernetVersion (frame.headD 0))
  else
    let macOffset := frame.length - fernetMacLen
    if c.hmac (key.take fernetSigningKeyLen) (frame.take macOffset) ≠ frame.drop macOffset then
      .error .authenticationFailed
    else
      decryptCbc c key ((frame.drop 9).take fernetIvLen)
        ((frame.take macOffset).drop (9 + fernetIvLen))

/-- Read a token. -/
def decryptStandardFernet (token key : Bytes) : Except EncryptionError Bytes := do
  let frame ← standardFrame token
  decryptFrame c frame key

/-- Read an older token. -/
def decryptLegacyGoToken (token key : Bytes) : Except EncryptionError Bytes :=
  if token.length < legacyGoMinFrameLen then .error .truncatedToken
  else if token.head? ≠ some fernetVersion then
    .error (.unsupportedFernetVersion (token.headD 0))
  else
    let macOffset := token.length - fernetMacLen
    if c.hmac key (token.take macOffset) ≠ token.drop macOffset then .error .authenticationFailed
    else
      match c.gcmDecrypt key ((token.drop 9).take legacyGoNonceLen)
          ((token.take macOffset).drop (9 + legacyGoNonceLen)) with
      | none => .error .authenticationFailed
      | some plaintext => .ok plaintext

/-- Standard Fernet first, then the raw AES-GCM frame. -/
def decryptFernetCompatible (token key : Bytes) : Except EncryptionError Bytes :=
  match decryptStandardFernet c token key with
  | .ok plaintext => .ok plaintext
  | .error error =>
      if token.length ≥ legacyGoMinFrameLen ∧ token.head? = some fernetVersion then
        match decryptLegacyGoToken c token key with
        | .ok plaintext => .ok plaintext
        | .error _ => .error .legacyTokenInvalid
      else .error error

/-- Read version 1. -/
def decryptV1 (envelope masterKey : Bytes) : Except EncryptionError Bytes := do
  if ¬ v1Header.isPrefixOf envelope then throw .unsupportedEnvelope
  validateMasterKey masterKey
  let token := envelope.drop v1Header.length
  if token = [] then throw .truncatedToken
  decryptFernetCompatible c token (c.pbkdf2 masterKey v1FixedSalt pbkdf2Iterations)

/-- An envelope with a salt, by its header, its number and the derivation of its key. -/
def decryptSalted (header : Bytes) (version : ℕ) (derive : Bytes → Bytes → Bytes)
    (envelope masterKey : Bytes) : Except EncryptionError Bytes := do
  if ¬ header.isPrefixOf envelope then throw .unsupportedEnvelope
  validateMasterKey masterKey
  let tokenStart := header.length + v2SaltLen
  if envelope.length < tokenStart then throw (.truncatedEnvelope version)
  let token := envelope.drop tokenStart
  if token = [] then throw .truncatedToken
  decryptFernetCompatible c token (derive masterKey ((envelope.drop header.length).take v2SaltLen))

/-- Read version 2. -/
def decryptV2 : Bytes → Bytes → Except EncryptionError Bytes :=
  decryptSalted c v2Header 2 fun masterKey salt => c.pbkdf2 masterKey salt pbkdf2Iterations

/-- Read version 3. -/
def decryptV3 : Bytes → Bytes → Except EncryptionError Bytes :=
  decryptSalted c v3Header 3 (deriveV3Key c)

/-- The versions of envelopes. -/
inductive EnvelopeVersion
  | v1
  | v2
  | v3
  deriving DecidableEq, Repr

/-- The version by the header. -/
def detectVersion (raw : Bytes) : Option EnvelopeVersion :=
  if v3Header.isPrefixOf raw then some .v3
  else if v2Header.isPrefixOf raw then some .v2
  else if v1Header.isPrefixOf raw then some .v1
  else none

/-- Read an envelope of the version in its header. -/
def decryptAny (raw masterKey : Bytes) : Except EncryptionError Bytes :=
  match detectVersion raw with
  | some .v1 => decryptV1 c raw masterKey
  | some .v2 => decryptV2 c raw masterKey
  | some .v3 => decryptV3 c raw masterKey
  | none => .error .unsupportedEnvelope

/-- The envelope holds a raw AES-GCM frame, by its shape. -/
def isLegacyGoEnvelope (raw : Bytes) : Bool :=
  let legacyAt (tokenOffset : ℕ) : Bool :=
    raw.length ≥ tokenOffset + legacyGoMinFrameLen ∧ raw[tokenOffset]? = some fernetVersion
  if v1Header.isPrefixOf raw then legacyAt v1Header.length
  else if v2Header.isPrefixOf raw then legacyAt (v2Header.length + v2SaltLen)
  else if v3Header.isPrefixOf raw then legacyAt (v3Header.length + v2SaltLen)
  else false

/-! ### What was written -/

/-- The raw frame that an earlier version wrote. -/
def legacyBody (key nonce : Bytes) (timestamp : UInt64) (plaintext : Bytes) : Bytes :=
  fernetVersion :: toBeBytes timestamp ++ nonce ++ c.gcmEncrypt key nonce plaintext

/-- An older frame with its tag. -/
def legacyFrame (key nonce : Bytes) (timestamp : UInt64) (plaintext : Bytes) : Bytes :=
  let body := legacyBody c key nonce timestamp plaintext
  body ++ c.hmac key body

/-- The key of an envelope. -/
def EnvelopeVersion.key (version : EnvelopeVersion) (masterKey salt : Bytes) : Bytes :=
  match version with
  | .v1 => c.pbkdf2 masterKey v1FixedSalt pbkdf2Iterations
  | .v2 => c.pbkdf2 masterKey salt pbkdf2Iterations
  | .v3 => deriveV3Key c masterKey salt

/-- The envelope of a token; V1 has no salt. -/
def EnvelopeVersion.envelope (version : EnvelopeVersion) (salt token : Bytes) : Bytes :=
  match version with
  | .v1 => v1Header ++ token
  | .v2 => v2Header ++ salt ++ token
  | .v3 => v3Header ++ salt ++ token

/-- The primitives undo each other and have their lengths. -/
structure Crypto.Correct : Prop where
  aes : ∀ key : Bytes, key.length = 16 →
    Cbc.Inverse fernetBlockLen (c.encryptBlock key) (c.decryptBlock key)
  gcm : ∀ key nonce plaintext : Bytes, key.length = 32 → nonce.length = legacyGoNonceLen →
    c.gcmDecrypt key nonce (c.gcmEncrypt key nonce plaintext) = some plaintext ∧
      (c.gcmEncrypt key nonce plaintext).length = plaintext.length + legacyGoGcmTagLen
  length_hmac : ∀ key data : Bytes, (c.hmac key data).length = fernetMacLen
  length_pbkdf2 : ∀ password salt iterations, (c.pbkdf2 password salt iterations).length = 32

variable {c} {version : EnvelopeVersion} {plaintext masterKey salt iv nonce key token : Bytes}
  {timestamp : UInt64}

theorem length_toBeBytes (timestamp : UInt64) : (toBeBytes timestamp).length = 8 := by
  simp [toBeBytes]

theorem length_key (hc : c.Correct) : (version.key c masterKey salt).length = 32 := by
  cases version with
  | v1 => exact hc.length_pbkdf2 _ _ _
  | v2 => exact hc.length_pbkdf2 _ _ _
  | v3 => exact hc.length_hmac _ _

/-! ### Tokens -/

/-- The parts of an authenticated frame with a field of `n` octets after the timestamp. -/
structure Framed (mac : Bytes → Bytes) (n : ℕ) (field ciphertext frame : Bytes) : Prop where
  length_eq : frame.length = 9 + n + ciphertext.length + fernetMacLen
  head_eq : frame.head? = some fernetVersion
  mac_eq : mac (frame.take (frame.length - fernetMacLen)) = frame.drop (frame.length - fernetMacLen)
  field_eq : (frame.drop 9).take n = field
  cipher_eq : (frame.take (frame.length - fernetMacLen)).drop (9 + n) = ciphertext

/-- A frame reads as it was written. -/
theorem framed (mac : Bytes → Bytes) (hmac : ∀ data, (mac data).length = fernetMacLen)
    (timestamp : UInt64) (field ciphertext : Bytes) :
    let body := fernetVersion :: toBeBytes timestamp ++ field ++ ciphertext
    Framed mac field.length field ciphertext (body ++ mac body) := by
  intro body
  have htime := length_toBeBytes timestamp
  have hbody : body.length = 9 + field.length + ciphertext.length := by
    simp only [body, List.length_append, List.length_cons, htime]
  have hlen : (body ++ mac body).length - fernetMacLen = body.length := by
    rw [List.length_append, hmac, Nat.add_sub_cancel]
  have hstart : (fernetVersion :: toBeBytes timestamp).length = 9 := by simp [htime]
  refine ⟨?_, rfl, ?_, ?_, ?_⟩
  · rw [List.length_append, hmac, hbody]
  · rw [hlen, List.take_left, List.drop_left]
  · rw [List.append_assoc, List.append_assoc, List.drop_left' hstart, List.take_left]
  · rw [hlen, List.take_left]
    show (((fernetVersion :: toBeBytes timestamp) ++ field) ++ ciphertext).drop _ = ciphertext
    rw [List.drop_left' (by rw [List.length_append, hstart])]

/-- A frame written for a key is decrypted with it. -/
theorem decryptFrame_fernetFrame (hc : c.Correct) (hkey : key.length = 32)
    (hiv : iv.length = fernetIvLen) :
    decryptFrame c (fernetFrame c key iv timestamp plaintext) key = .ok plaintext := by
  have haes := hc.aes (key.drop fernetSigningKeyLen) (by simp [hkey, fernetSigningKeyLen])
  have hcipher := Cbc.length_encrypt (by decide) haes hiv plaintext
  have hround := Cbc.decrypt_encrypt (by decide) haes hiv plaintext (by decide)
  have hframe : Framed (c.hmac (key.take fernetSigningKeyLen)) iv.length iv _
      (fernetFrame c key iv timestamp plaintext) :=
    framed _ (fun _ => hc.length_hmac _ _) timestamp iv _
  generalize Cbc.encrypt fernetBlockLen (c.encryptBlock (key.drop fernetSigningKeyLen)) iv
    plaintext = ciphertext at hcipher hround hframe
  rw [hiv] at hframe
  have hlen := hframe.length_eq
  have hmin : fernetBlockLen ≤ ciphertext.length := by
    rw [hcipher]
    exact Nat.le_mul_of_pos_right _ (Nat.succ_pos _)
  have hmod : ciphertext.length % fernetBlockLen = 0 := by
    rw [hcipher]
    exact Nat.mul_mod_right _ _
  have hne : ciphertext ≠ [] := by
    rintro rfl
    exact absurd hmin (by decide)
  unfold decryptFrame
  rw [if_neg, if_neg (not_not.2 hframe.head_eq)]
  · dsimp only
    rw [if_neg (not_not.2 hframe.mac_eq), hframe.field_eq, hframe.cipher_eq, decryptCbc, if_neg,
      hround]
    rintro (h | h)
    · exact hne h
    · exact h hmod
  · rw [hlen]
    simp only [fernetMinFrameLen]
    omega

theorem length_fernetFrame (hc : c.Correct) (hkey : key.length = 32)
    (hiv : iv.length = fernetIvLen) :
    fernetMinFrameLen ≤ (fernetFrame c key iv timestamp plaintext).length := by
  have haes := hc.aes (key.drop fernetSigningKeyLen) (by simp [hkey, fernetSigningKeyLen])
  have hcipher := Cbc.length_encrypt (by decide) haes hiv plaintext
  have hframe := framed (c.hmac (key.take fernetSigningKeyLen))
    (fun _ => hc.length_hmac _ _) timestamp iv (Cbc.encrypt fernetBlockLen
      (c.encryptBlock (key.drop fernetSigningKeyLen)) iv plaintext)
  have hmin : fernetBlockLen ≤ fernetBlockLen * (plaintext.length / fernetBlockLen + 1) :=
    Nat.le_mul_of_pos_right _ (Nat.succ_pos _)
  have hlen := hframe.length_eq
  rw [hcipher, hiv] at hlen
  rw [fernetFrame, fernetBody, hlen, fernetMinFrameLen]
  omega

theorem fernetFrame_ne_nil : fernetFrame c key iv timestamp plaintext ≠ [] := List.cons_ne_nil _ _

theorem legacyFrame_ne_nil : legacyFrame c key nonce timestamp plaintext ≠ [] :=
  List.cons_ne_nil _ _

/-- No base64 text starts like a raw frame. -/
theorem standardFrame_raw {rest : Bytes} (hlen : fernetMinFrameLen ≤ (fernetVersion :: rest).length) :
    standardFrame (fernetVersion :: rest) = .ok (fernetVersion :: rest) := by
  rw [standardFrame, Base64.decodeOctets_eq_none Base64.alphabet_urlSafe (by decide)]
  exact if_pos ⟨hlen, rfl⟩

theorem decrypt_base64 (hc : c.Correct) (hkey : key.length = 32) (hiv : iv.length = fernetIvLen) :
    decryptFernetCompatible c
      (Base64.encodeOctets Base64.urlSafe (fernetFrame c key iv timestamp plaintext)) key =
        .ok plaintext := by
  have hdecode := Base64.decodeOctets_encodeOctets Base64.alphabet_urlSafe
    (fernetFrame c key iv timestamp plaintext)
  have hstandard : decryptStandardFernet c (Base64.encodeOctets Base64.urlSafe
      (fernetFrame c key iv timestamp plaintext)) key = .ok plaintext := by
    simp only [decryptStandardFernet, standardFrame, hdecode, bind, Except.bind]
    exact decryptFrame_fernetFrame hc hkey hiv
  rw [decryptFernetCompatible, hstandard]

theorem decrypt_raw (hc : c.Correct) (hkey : key.length = 32) (hiv : iv.length = fernetIvLen) :
    decryptFernetCompatible c (fernetFrame c key iv timestamp plaintext) key = .ok plaintext := by
  have hstandard : decryptStandardFernet c (fernetFrame c key iv timestamp plaintext) key =
      .ok plaintext := by
    have hframe : standardFrame (fernetFrame c key iv timestamp plaintext) =
        .ok (fernetFrame c key iv timestamp plaintext) :=
      standardFrame_raw (length_fernetFrame hc hkey hiv)
    rw [decryptStandardFernet, hframe]
    exact decryptFrame_fernetFrame hc hkey hiv
  rw [decryptFernetCompatible, hstandard]

/-- A raw AES-GCM frame is no Fernet frame, so that the second attempt reads it. -/
theorem decrypt_legacy (hc : c.Correct) (hkey : key.length = 32)
    (hnonce : nonce.length = legacyGoNonceLen)
    (hother : c.hmac (key.take fernetSigningKeyLen) (legacyBody c key nonce timestamp plaintext) ≠
      c.hmac key (legacyBody c key nonce timestamp plaintext)) :
    decryptFernetCompatible c (legacyFrame c key nonce timestamp plaintext) key =
      .ok plaintext := by
  obtain ⟨hround, hcipher⟩ := hc.gcm key nonce plaintext hkey hnonce
  have hframe : Framed (c.hmac key) nonce.length nonce _
      (legacyFrame c key nonce timestamp plaintext) :=
    framed _ (hc.length_hmac key) timestamp nonce _
  generalize hgcm : c.gcmEncrypt key nonce plaintext = ciphertext at hround hcipher hframe
  rw [hnonce] at hframe
  have hmin : legacyGoMinFrameLen ≤ (legacyFrame c key nonce timestamp plaintext).length := by
    rw [hframe.length_eq, hcipher, legacyGoMinFrameLen]
    omega
  have hbody : (legacyFrame c key nonce timestamp plaintext).take
      ((legacyFrame c key nonce timestamp plaintext).length - fernetMacLen) =
        legacyBody c key nonce timestamp plaintext := by
    rw [legacyFrame, List.length_append, hc.length_hmac, Nat.add_sub_cancel, List.take_left]
  have hmac := hframe.mac_eq
  rw [hbody] at hmac
  -- the first attempt stops at the alphabet or at the tag, by the length of the frame
  have hstandard : ∃ error, decryptStandardFernet c (legacyFrame c key nonce timestamp plaintext)
      key = .error error := by
    have hdecode : Base64.decodeOctets Base64.urlSafe (legacyFrame c key nonce timestamp plaintext)
        = none :=
      Base64.decodeOctets_eq_none Base64.alphabet_urlSafe (by decide) _
    by_cases hlong : fernetMinFrameLen ≤ (legacyFrame c key nonce timestamp plaintext).length
    · refine ⟨.authenticationFailed, ?_⟩
      have hstd : standardFrame (legacyFrame c key nonce timestamp plaintext) =
          .ok (legacyFrame c key nonce timestamp plaintext) := standardFrame_raw hlong
      rw [decryptStandardFernet, hstd]
      show decryptFrame c _ key = _
      unfold decryptFrame
      rw [if_neg (not_lt.2 hlong), if_neg (not_not.2 hframe.head_eq)]
      dsimp only
      rw [hbody, ← hmac, if_pos hother]
    · refine ⟨.invalidBase64, ?_⟩
      simp only [decryptStandardFernet, standardFrame, hdecode, bind, Except.bind]
      rw [if_neg fun h => hlong h.1]
  have hlegacy : decryptLegacyGoToken c (legacyFrame c key nonce timestamp plaintext) key =
      .ok plaintext := by
    unfold decryptLegacyGoToken
    rw [if_neg (not_lt.2 hmin), if_neg (not_not.2 hframe.head_eq)]
    dsimp only
    rw [if_neg (not_not.2 hframe.mac_eq), hframe.field_eq, hframe.cipher_eq, hround]
  obtain ⟨error, herror⟩ := hstandard
  rw [decryptFernetCompatible, herror]
  dsimp only
  rw [if_pos ⟨hmin, hframe.head_eq⟩, hlegacy]

/-! ### Envelopes -/

/-- Two headers differ in their last digit. -/
theorem isPrefixOf_header {d : UInt8} (e : UInt8) (stem rest : Bytes) :
    (stem ++ [d, 10]).isPrefixOf (stem ++ [e, 10] ++ rest) = decide (d = e) := by
  rw [Bool.eq_iff_iff, List.isPrefixOf_iff_prefix, decide_eq_true_iff, List.append_assoc,
    List.prefix_append_right_inj]
  simp [List.cons_prefix_cons]

theorem headers_eq :
    v1Header = Utf8.encode "SYMERASEME_ENCv" ++ [49, 10] ∧
      v2Header = Utf8.encode "SYMERASEME_ENCv" ++ [50, 10] ∧
      v3Header = Utf8.encode "SYMERASEME_ENCv" ++ [51, 10] := by
  decide

theorem detectVersion_envelope : detectVersion (version.envelope salt token) = some version := by
  obtain ⟨h1, h2, h3⟩ := headers_eq
  cases version with
  | v1 =>
    simp only [detectVersion, EnvelopeVersion.envelope, h1, h2, h3, isPrefixOf_header]
    decide
  | v2 =>
    simp only [detectVersion, EnvelopeVersion.envelope, h1, h2, h3, isPrefixOf_header,
      List.append_assoc _ salt]
    decide
  | v3 =>
    simp only [detectVersion, EnvelopeVersion.envelope, h1, h2, h3, isPrefixOf_header,
      List.append_assoc _ salt]
    decide

/-- An envelope is opened by its version and its token read with its key. -/
theorem decryptAny_eq (hkey : masterKey.length = masterKeyLen) (hsalt : salt.length = v2SaltLen)
    (htoken : token ≠ []) :
    decryptAny c (version.envelope salt token) masterKey =
      decryptFernetCompatible c token (version.key c masterKey salt) := by
  have hsalted (header : Bytes) (n : ℕ) (derive : Bytes → Bytes → Bytes) :
      decryptSalted c header n derive (header ++ salt ++ token) masterKey =
        decryptFernetCompatible c token (derive masterKey salt) := by
    have hstart : (header ++ salt).length = header.length + v2SaltLen := by
      rw [List.length_append, hsalt]
    have hdrop : (header ++ salt ++ token).drop (header.length + v2SaltLen) = token :=
      List.drop_left' hstart
    have htake : ((header ++ salt ++ token).drop header.length).take v2SaltLen = salt := by
      rw [List.append_assoc, List.drop_left, List.take_left' hsalt]
    unfold decryptSalted
    simp only [hdrop, htake, validateMasterKey, hkey, if_true, htoken, if_false, bind, Except.bind]
    rw [if_neg, if_neg]
    · rw [List.length_append, hstart]
      omega
    · rw [not_not, List.append_assoc, List.isPrefixOf_iff_prefix]
      exact List.prefix_append _ _
  rw [decryptAny, detectVersion_envelope]
  cases version with
  | v1 =>
    have hdrop : (v1Header ++ token).drop v1Header.length = token := List.drop_left
    simp only [EnvelopeVersion.envelope, decryptV1, hdrop, validateMasterKey, hkey, if_true, htoken,
      if_false, bind, Except.bind]
    rw [if_neg]
    · rfl
    · rw [not_not, List.isPrefixOf_iff_prefix]
      exact List.prefix_append _ _
  | v2 => exact hsalted v2Header 2 _
  | v3 => exact hsalted v3Header 3 _

/-- A base64 token does not look like a raw frame. -/
theorem isLegacyGoEnvelope_base64 (hsalt : salt.length = v2SaltLen) (frame : Bytes) :
    isLegacyGoEnvelope (EnvelopeVersion.v3.envelope salt
      (Base64.encodeOctets Base64.urlSafe frame)) = false := by
  obtain ⟨h1, h2, h3⟩ := headers_eq
  have hlen : (v3Header ++ salt).length = v3Header.length + v2SaltLen := by
    rw [List.length_append, hsalt]
  have hfirst : (v3Header ++ salt ++ Base64.encodeOctets Base64.urlSafe frame)[v3Header.length +
      v2SaltLen]? ≠ some fernetVersion := by
    rw [← hlen, List.getElem?_append_right le_rfl, Nat.sub_self]
    intro hget
    have hlt := Base64.encodeOctets_lt Base64.alphabet_urlSafe frame fernetVersion
      (List.mem_of_getElem? hget)
    exact absurd hlt (by decide)
  have hv1 : v1Header.isPrefixOf (v3Header ++ salt ++ Base64.encodeOctets Base64.urlSafe frame) =
      false := by
    rw [h1, h3, List.append_assoc _ salt, isPrefixOf_header]
    decide
  have hv2 : v2Header.isPrefixOf (v3Header ++ salt ++ Base64.encodeOctets Base64.urlSafe frame) =
      false := by
    rw [h2, h3, List.append_assoc _ salt, isPrefixOf_header]
    decide
  simp only [isLegacyGoEnvelope, EnvelopeVersion.envelope, hv1, hv2, hfirst, Bool.false_eq_true,
    if_false, and_false, decide_false, ite_self]

/-- Every envelope is read back, whatever kind of token it holds; what is written now is of version
3 and does not look like a raw frame. -/
theorem decryptAny_envelope (c : Crypto) (hc : c.Correct) (version : EnvelopeVersion)
    (plaintext masterKey salt iv nonce : Bytes) (timestamp : UInt64)
    (hkey : masterKey.length = 32) (hsalt : salt.length = 16) (hiv : iv.length = 16)
    (hnonce : nonce.length = 12) :
    decryptAny c (version.envelope salt (Base64.encodeOctets Base64.urlSafe
      (fernetFrame c (version.key c masterKey salt) iv timestamp plaintext))) masterKey =
        .ok plaintext ∧
    decryptAny c (version.envelope salt
      (fernetFrame c (version.key c masterKey salt) iv timestamp plaintext)) masterKey =
        .ok plaintext ∧
    (c.hmac ((version.key c masterKey salt).take 16)
        (legacyBody c (version.key c masterKey salt) nonce timestamp plaintext) ≠
      c.hmac (version.key c masterKey salt)
        (legacyBody c (version.key c masterKey salt) nonce timestamp plaintext) →
      decryptAny c (version.envelope salt
        (legacyFrame c (version.key c masterKey salt) nonce timestamp plaintext)) masterKey =
          .ok plaintext) ∧
    ∃ envelope, encryptV3WithMaterial c plaintext masterKey salt iv timestamp = .ok envelope ∧
      decryptAny c envelope masterKey = .ok plaintext ∧
      detectVersion envelope = some .v3 ∧ isLegacyGoEnvelope envelope = false := by
  have hderived : (version.key c masterKey salt).length = 32 := length_key hc
  refine ⟨?_, ?_, fun hother => ?_, ?_⟩
  · rw [decryptAny_eq hkey hsalt (Base64.encodeOctets_ne_nil fernetFrame_ne_nil)]
    exact decrypt_base64 hc hderived hiv
  · rw [decryptAny_eq hkey hsalt fernetFrame_ne_nil]
    exact decrypt_raw hc hderived hiv
  · rw [decryptAny_eq hkey hsalt legacyFrame_ne_nil]
    exact decrypt_legacy hc hderived hnonce hother
  · refine ⟨EnvelopeVersion.v3.envelope salt (Base64.encodeOctets Base64.urlSafe
      (fernetFrame c (deriveV3Key c masterKey salt) iv timestamp plaintext)), ?_, ?_, ?_, ?_⟩
    · simp only [encryptV3WithMaterial, validateMasterKey, hkey, masterKeyLen, if_true, hsalt,
        v3SaltLen, hiv, fernetIvLen, encryptStandardFernet, bind, Except.bind, pure, Except.pure,
        not_true_eq_false, or_self, if_false, ne_eq, EnvelopeVersion.envelope]
    · rw [decryptAny_eq hkey hsalt (Base64.encodeOctets_ne_nil fernetFrame_ne_nil)]
      exact decrypt_base64 hc (hc.length_hmac _ _) hiv
    · exact detectVersion_envelope
    · exact isLegacyGoEnvelope_base64 hsalt _

/-! ### A sample

The values that the primitives give for a plaintext of two blocks, the master key of octets 17, the
salt of octets 34, the IV of octets 51, the nonce of octets 68 and the timestamp 0. -/

/-- The octets of a number, the highest first. -/
def octets (n value : ℕ) : Bytes :=
  (List.range n).map fun i => UInt8.ofNat (value / 256 ^ (n - 1 - i))

/-- The plaintext of the sample. -/
def samplePlaintext : Bytes := Utf8.encode "two blocks of octets"

/-- The master key of the sample. -/
def sampleMasterKey : Bytes := List.replicate 32 17

/-- The salt of the sample. -/
def sampleSalt : Bytes := List.replicate 16 34

/-- The initialisation vector of the sample. -/
def sampleIv : Bytes := List.replicate 16 51

/-- The nonce of the sample. -/
def sampleNonce : Bytes := List.replicate 12 68

/-- What HKDF extracts from the master key. -/
def samplePrk : Bytes :=
  octets 32 0xf126ba77a2596c033a2d302b5c083044cc2dfd9c9ba53ba88f69e4b3183cd0f8

/-- The key of one version and what the primitives give under it. -/
structure Sample where
  key : Bytes
  cipher1 : Bytes
  cipher2 : Bytes
  tag : Bytes
  keystream : Bytes
  gcmTag : Bytes
  legacyTag : Bytes
  otherTag : Bytes

/-- The values for each version. -/
def EnvelopeVersion.sample : EnvelopeVersion → Sample
  | .v1 => {
      key := octets 32 0x24796e8f127310d7176dfac6e7071a717afdfc433f9824a2e3a83e98cd2fbb3d
      cipher1 := octets 16 0x021d12c58e1a677ce163caa4b3831bd0
      cipher2 := octets 16 0x680595ff0c2e3ec4eccaa14a9e9c9203
      tag := octets 32 0x0df475ccc3c3c011b8e76f1bab03cc817fa703a9d073db7b805c57b26bd5b153
      keystream := octets 20 0x14a914ca339d1f527d8b7651815820b83381c6e3
      gcmTag := octets 16 0x9268cfc3039eebf421ffbab07461eecd
      legacyTag := octets 32
        0x31cb47652a0e6faf311ea2e4864f96f6ec5a40bc4e99ae1b788c0d074bb1a7f8
      otherTag := octets 32
        0xbafb2973fbd8f63f9f2d00f83606b41d003b1e3fac7871de1aae015eb50b8148 }
  | .v2 => {
      key := octets 32 0x5eb7a30ca991318877441d2f236a7d8adebd0e599d7a0989f558f10732ce90e0
      cipher1 := octets 16 0x38524fe7aa4d491ca5d6f4f7fd7a140b
      cipher2 := octets 16 0x476dc5be8c1b7d049c9769523fea3fde
      tag := octets 32 0x08921afe18ae928e465cbc031aad55dd2fdfc7dbc4f0ca7e49646b14cc3f8624
      keystream := octets 20 0xbc48d2af4b9d9580345a976d046e99166a7f2e6a
      gcmTag := octets 16 0xb68e8e02ac1847428d042ca88d49d326
      legacyTag := octets 32
        0x47b5bd5c26188e6da457f581347a1d2959f552c5f4007d834d9336e62f4a4f6e
      otherTag := octets 32
        0x1769b8e0ea33365d9913ce522c8fbbbf4131e8c735c4a6bf1aa347f97a802dc2 }
  | .v3 => {
      key := octets 32 0xa65b90932efaa973c0dc83381d8ef282b673974a87514a60ce1608afb3366b0f
      cipher1 := octets 16 0x8b9ed5da17e32a1667b67e6c84146ec6
      cipher2 := octets 16 0x54a986a09689943431e588d9c73256a9
      tag := octets 32 0xff5504b5e6af74c58079dedf4f3a1b28563b61e803c894050097f7ef860991c4
      keystream := octets 20 0x8a2ea0bd402bf5019a11901455b541657e842126
      gcmTag := octets 16 0x16ecc3a23936b772159e1ce22a44d806
      legacyTag := octets 32
        0x68bc460f004b5674a32db4624d7716c3f4fbc3a3d32816e5a8294c12d2b73784
      otherTag := octets 32
        0x2188079f1df3ea9ed211295b75029bf3c5e30906e2ba9f1d4ee7a355ee5abbdc }

/-- The values for any other key. -/
def Sample.blank : Sample where
  key := []
  cipher1 := octets 16 0
  cipher2 := octets 16 0
  tag := octets 32 0
  keystream := []
  gcmTag := octets 16 0
  legacyTag := octets 32 0
  otherTag := octets 32 0

/-- The values of the key that is looked for. -/
def sampleWith (p : Sample → Bool) : Sample :=
  ([EnvelopeVersion.v1.sample, EnvelopeVersion.v2.sample, EnvelopeVersion.v3.sample].find? p).getD
    Sample.blank

/-- The values of the key with some key of AES. -/
def sampleAes (key : Bytes) : Sample := sampleWith fun s => s.key.drop fernetSigningKeyLen = key

/-- The first block that is encrypted. -/
def sampleBlock : Bytes := Cbc.xor (samplePlaintext.take 16) sampleIv

/-- The second block that is encrypted, padding included. -/
def Sample.block (s : Sample) : Bytes :=
  Cbc.xor ((Cbc.pad 16 samplePlaintext).drop 16) s.cipher1

/-- The frame before its authentication. -/
def Sample.body (s : Sample) : Bytes :=
  fernetVersion :: List.replicate 8 0 ++ sampleIv ++ s.cipher1 ++ s.cipher2

/-- A cipher that exchanges the blocks of the sample with theirs. -/
def Sample.cipher (s : Sample) : Equiv.Perm Bytes :=
  Equiv.swap sampleBlock s.cipher1 * Equiv.swap s.block s.cipher2

/-- A text under the keystream. -/
def Sample.stream (s : Sample) (text : Bytes) : Bytes :=
  Cbc.xor text ((s.keystream ++ List.replicate text.length 0).take text.length)

/-- The primitives on the sample. -/
def sampleCrypto : Crypto where
  encryptBlock key := (sampleAes key).cipher
  decryptBlock key := (sampleAes key).cipher.symm
  gcmEncrypt key _ plaintext :=
    let s := sampleWith fun s => s.key = key
    s.stream plaintext ++ s.gcmTag
  gcmDecrypt key _ ciphertext :=
    let s := sampleWith fun s => s.key = key
    let n := ciphertext.length - legacyGoGcmTagLen
    if ciphertext.drop n = s.gcmTag then some (s.stream (ciphertext.take n)) else none
  hmac key data :=
    if key = sampleSalt then samplePrk
    else if key = samplePrk then EnvelopeVersion.v3.sample.key
    else if key.length = 32 then (sampleWith fun s => s.key = key).legacyTag
    else
      let s := sampleWith fun s => s.key.take fernetSigningKeyLen = key
      if data = s.body then s.tag else s.otherTag
  pbkdf2 _ salt _ :=
    if salt = v1FixedSalt then EnvelopeVersion.v1.sample.key else EnvelopeVersion.v2.sample.key

/-- What holds of the values for all keys holds of those that are found. -/
theorem sampleWith_of {P : Sample → Prop} (hblank : P Sample.blank)
    (hsample : ∀ version : EnvelopeVersion, P version.sample) (p : Sample → Bool) :
    P (sampleWith p) := by
  unfold sampleWith
  cases hfind : List.find? p _ with
  | none => exact hblank
  | some s =>
    have hmem := List.mem_of_find?_eq_some hfind
    simp only [List.mem_cons, List.not_mem_nil, or_false] at hmem
    rcases hmem with rfl | rfl | rfl
    · exact hsample .v1
    · exact hsample .v2
    · exact hsample .v3

/-- The values have the lengths of what they stand for. -/
structure Sample.Sized (s : Sample) : Prop where
  cipher1 : s.cipher1.length = fernetBlockLen
  cipher2 : s.cipher2.length = fernetBlockLen
  block : s.block.length = fernetBlockLen
  gcmTag : s.gcmTag.length = legacyGoGcmTagLen
  tags : s.tag.length = fernetMacLen ∧ s.legacyTag.length = fernetMacLen ∧
    s.otherTag.length = fernetMacLen

theorem sized_sampleWith (p : Sample → Bool) : (sampleWith p).Sized := by
  refine sampleWith_of ⟨by decide, by decide, by decide, by decide, by decide⟩ (fun version => ?_) p
  cases version with
  | v1 => exact ⟨by decide, by decide, by decide, by decide, by decide⟩
  | v2 => exact ⟨by decide, by decide, by decide, by decide, by decide⟩
  | v3 => exact ⟨by decide, by decide, by decide, by decide, by decide⟩

theorem length_swap {n : ℕ} {a b x : Bytes} (ha : a.length = n) (hb : b.length = n)
    (hx : x.length = n) : (Equiv.swap a b x).length = n := by
  rw [Equiv.swap_apply_def]
  split_ifs
  · exact hb
  · exact ha
  · exact hx

theorem Sample.Sized.length_cipher {s : Sample} (hs : s.Sized) {b : Bytes}
    (hb : b.length = fernetBlockLen) : (s.cipher b).length = fernetBlockLen :=
  length_swap (by decide) hs.cipher1 (length_swap hs.block hs.cipher2 hb)

theorem length_keystream (s : Sample) (text : Bytes) :
    ((s.keystream ++ List.replicate text.length 0).take text.length).length = text.length := by
  rw [List.length_take, List.length_append, List.length_replicate]
  omega

theorem length_stream (s : Sample) (text : Bytes) : (s.stream text).length = text.length := by
  rw [Sample.stream, Cbc.xor, List.length_zipWith, length_keystream, Nat.min_self]

theorem stream_stream (s : Sample) (text : Bytes) : s.stream (s.stream text) = text := by
  rw [Sample.stream, length_stream, Sample.stream]
  exact Cbc.xor_xor (length_keystream s text).symm

theorem sampleCrypto_correct : sampleCrypto.Correct where
  aes key _ :=
    ⟨fun b _ => Equiv.symm_apply_apply _ b, fun b hb => (sized_sampleWith _).length_cipher hb⟩
  gcm key nonce plaintext _ _ := by
    have hs := sized_sampleWith fun s => s.key = key
    simp only [sampleCrypto]
    generalize (sampleWith fun s => s.key = key) = s at hs
    have hlength : (s.stream plaintext ++ s.gcmTag).length =
        plaintext.length + legacyGoGcmTagLen := by
      rw [List.length_append, length_stream, hs.gcmTag]
    have hsub : (s.stream plaintext ++ s.gcmTag).length - legacyGoGcmTagLen =
        (s.stream plaintext).length := by
      rw [hlength, Nat.add_sub_cancel, length_stream]
    refine ⟨?_, hlength⟩
    rw [hsub, List.drop_left, if_pos rfl, List.take_left, stream_stream]
  length_hmac key data := by
    simp only [sampleCrypto]
    split_ifs
    · decide
    · decide
    · exact (sized_sampleWith _).tags.2.1
    · exact (sized_sampleWith _).tags.1
    · exact (sized_sampleWith _).tags.2.2
  length_pbkdf2 _ salt _ := by
    simp only [sampleCrypto]
    split_ifs
    · decide
    · decide

/-- The frames of one version hold the values of the sample, and its tokens of all three kinds give
the plaintext back. -/
def ReadsSample (version : EnvelopeVersion) : Prop :=
  let s := version.sample
  let frame := fernetFrame sampleCrypto s.key sampleIv 0 samplePlaintext
  let legacy := legacyFrame sampleCrypto s.key sampleNonce 0 samplePlaintext
  let read (token : Bytes) :=
    decryptAny sampleCrypto (version.envelope sampleSalt token) sampleMasterKey
  frame = s.body ++ s.tag ∧ legacy.drop (legacy.length - fernetMacLen) = s.legacyTag ∧
    read (Base64.encodeOctets Base64.urlSafe frame) = .ok samplePlaintext ∧
    read frame = .ok samplePlaintext ∧ read legacy = .ok samplePlaintext

theorem decryptAny_sample : ReadsSample .v1 ∧ ReadsSample .v2 ∧ ReadsSample .v3 := by
  have hreads (version : EnvelopeVersion) : ReadsSample version := by
    obtain ⟨hbase64, hraw, hlegacy, -⟩ := decryptAny_envelope sampleCrypto sampleCrypto_correct
      version samplePlaintext sampleMasterKey sampleSalt sampleIv sampleNonce 0 (by decide)
      (by decide) (by decide) (by decide)
    have hkey : version.key sampleCrypto sampleMasterKey sampleSalt = version.sample.key := by
      cases version <;> decide +kernel
    rw [hkey] at hbase64 hraw hlegacy
    refine ⟨?_, ?_, hbase64, hraw, hlegacy ?_⟩
    · cases version <;> decide +kernel
    · cases version <;> decide +kernel
    · cases version <;> decide +kernel
  exact ⟨hreads .v1, hreads .v2, hreads .v3⟩

end EraseMe.Encryption
