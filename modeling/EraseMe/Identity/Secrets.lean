import EraseMe.Library.Hex

/-!
# `identity::secrets`: the master key

A resolver looks for the master key in its cache, in two variables of the environment and in the
keyring.  The keyring has one entry, and every call of it may fail: in opening the entry, or in the
access to it.  A failed access to read counts as an absent entry, and so does a failed opening to
the resolver.

`init` mints a key when the resolver finds none, so that a lookup that fails once replaces the key
in the entry (`init_holds_iff`).
-/

namespace EraseMe.Identity.Secrets

/-! ### Keys -/

/-- The variable of the key. -/
def masterKeyEnv : String := "SYMERASEME_IDENTITY_MASTER_KEY"

/-- The variable of the passphrase. -/
def symvaultPassphraseEnv : String := "SYMVAULT_PASSPHRASE"

/-- The octets of a key. -/
def keyLength : ℕ := 32

/-- An identity master key. -/
structure MasterKey where
  bytes : List UInt8
  length_bytes : bytes.length = keyLength
  deriving DecidableEq

/-- Why there is no key. -/
inductive MasterKeyError
  | missing
  | invalidHex (source : String)
  | invalidLength (source : String) (actual : ℕ)
  | derivationFailed
  | persistenceFailed
  deriving DecidableEq, Repr

/-- Octets as a key. -/
def MasterKey.fromBytes (source : String) (bytes : List UInt8) : Except MasterKeyError MasterKey :=
  if h : bytes.length = keyLength then .ok ⟨bytes, h⟩
  else .error (.invalidLength source bytes.length)

/-- Digits as a key. -/
def decodeKey (source value : String) : Except MasterKeyError MasterKey :=
  match Hex.decode value.toList with
  | none => .error (.invalidHex source)
  | some bytes => MasterKey.fromBytes source bytes

/-- The text of a key in the keyring. -/
def encodeKey (key : MasterKey) : String := String.ofList (Hex.encode key.bytes)

/-! ### The keyring -/

/-- The value of the entry, if there is one. -/
abbrev Entry := Option String

/-- Where a call of the keyring fails. -/
inductive KeyringFault
  | opening
  | access
  deriving DecidableEq, Repr

/-- An opaque keyring failure. -/
structure KeyringError where
  deriving DecidableEq, Repr

/-- Ask the keyring. -/
def keyringGet (entry : Entry) : Option KeyringFault → Except KeyringError (Option String)
  | some .opening => .error {}
  | some .access => .ok none
  | none => .ok (entry.filter (· ≠ ""))

/-- Tell the keyring. -/
def keyringSet (entry : Entry) (value : String) :
    Option KeyringFault → Except KeyringError Unit × Entry
  | some _ => (.error {}, entry)
  | none => (.ok (), some value)

/-- An absent entry is not an error. -/
def keyringDelete (entry : Entry) : Option KeyringFault → Except KeyringError Unit × Entry
  | some _ => (.error {}, entry)
  | none => (.ok (), none)

/-! ### The resolver -/

/-- The derivation of a key from a passphrase. -/
abbrev Derivation := String → Option MasterKey

/-- A key from a passphrase. -/
def derivePassphraseKey (derive : Derivation) (passphrase : String) :
    Except MasterKeyError MasterKey :=
  match derive passphrase with
  | some key => .ok key
  | none => .error .derivationFailed

/-- Where a key comes from. -/
structure Resolver where
  environment : String → Option String
  cached : Option MasterKey

/-- The value of a variable that is not empty. -/
def Resolver.value (r : Resolver) (name : String) : Option String :=
  (r.environment name).filter (· ≠ "")

/-- A resolver with the same environment and no cache. -/
def Resolver.fresh (r : Resolver) : Resolver := { r with cached := none }

/-- A key that is found goes to the cache. -/
def Resolver.remember (r : Resolver) :
    Except MasterKeyError MasterKey → Except MasterKeyError MasterKey × Resolver
  | .ok key => (.ok key, { r with cached := some key })
  | .error error => (.error error, r)

variable (derive : Derivation)

/-- Resolve an existing key without creating one. -/
def resolveExisting (r : Resolver) (entry : Entry) (get : Option KeyringFault) :
    Except MasterKeyError MasterKey × Resolver :=
  match r.cached with
  | some key => (.ok key, r)
  | none =>
      match r.value masterKeyEnv with
      | some value => r.remember (decodeKey masterKeyEnv value)
      | none =>
          match r.value symvaultPassphraseEnv with
          | some passphrase => r.remember (derivePassphraseKey derive passphrase)
          | none =>
              match keyringGet entry get with
              | .ok (some value) =>
                  if value ≠ "" then r.remember (decodeKey "stored keychain master key" value)
                  else (.error .missing, r)
              | _ => (.error .missing, r)

/-- Return the existing key, or mint one and store it. -/
def init (r : Resolver) (entry : Entry) (get set : Option KeyringFault) (minted : MasterKey) :
    Except MasterKeyError MasterKey × Resolver × Entry :=
  match resolveExisting derive r entry get with
  | (.ok key, r) => (.ok key, r, entry)
  | (.error .missing, r) =>
      match keyringSet entry (encodeKey minted) set with
      | (.ok (), entry) => (.ok minted, { r with cached := some minted }, entry)
      | (.error _, entry) => (.error .persistenceFailed, r, entry)
  | (.error error, r) => (.error error, r, entry)

/-- Drop the cached key and the entry. -/
def delete (r : Resolver) (entry : Entry) (fault : Option KeyringFault) :
    Except KeyringError Unit × Resolver × Entry :=
  let (result, entry) := keyringDelete entry fault
  (result, { r with cached := none }, entry)

/-! ### What the resolver finds -/

/-- The entry holds a key. -/
def Holds (entry : Entry) (key : MasterKey) : Prop :=
  ∃ value, entry = some value ∧ ∃ source, decodeKey source value = .ok key

/-- The resolver does not ask the keyring. -/
def Resolver.Settled (r : Resolver) : Prop :=
  r.cached ≠ none ∨ r.value masterKeyEnv ≠ none ∨ r.value symvaultPassphraseEnv ≠ none

variable {derive} {r : Resolver} {entry : Entry} {key minted : MasterKey}
  {get set fault : Option KeyringFault}

theorem decodeKey_encodeKey (source : String) (key : MasterKey) :
    decodeKey source (encodeKey key) = .ok key := by
  unfold decodeKey encodeKey MasterKey.fromBytes
  rw [String.toList_ofList, Hex.decode_encode]
  simp only [key.length_bytes, dif_pos]

/-- The source of a text shows only in the error. -/
theorem decodeKey_source {source source' value : String} (h : decodeKey source value = .ok key) :
    decodeKey source' value = .ok key := by
  unfold decodeKey MasterKey.fromBytes at h ⊢
  cases hbytes : Hex.decode value.toList with
  | none =>
    rw [hbytes] at h
    cases h
  | some bytes =>
    rw [hbytes] at h
    by_cases hlength : bytes.length = keyLength
    · simp only [hlength, dif_pos] at h ⊢
      exact h
    · simp only [hlength, dif_neg, not_false_eq_true] at h
      cases h

theorem decodeKey_ne_missing (source value : String) :
    decodeKey source value ≠ .error .missing := by
  unfold decodeKey MasterKey.fromBytes
  split
  · simp
  · split_ifs
    · simp
    · simp

/-- The empty text is no key. -/
theorem ne_empty_of_decodeKey {source value : String} (h : decodeKey source value = .ok key) :
    value ≠ "" := by
  rintro rfl
  cases h

theorem holds_encodeKey (key : MasterKey) : Holds (some (encodeKey key)) key :=
  ⟨_, rfl, "", decodeKey_encodeKey "" key⟩

theorem Holds.unique {key' : MasterKey} (h : Holds entry key) (h' : Holds entry key') :
    key = key' := by
  obtain ⟨value, hvalue, source, hkey⟩ := h
  obtain ⟨value', hvalue', source', hkey'⟩ := h'
  rw [hvalue] at hvalue'
  cases hvalue'
  rw [decodeKey_source hkey] at hkey'
  exact Except.ok.inj hkey'

theorem not_holds_none : ¬ Holds none key := by
  rintro ⟨value, hvalue, -⟩
  cases hvalue

theorem remember_cases (result : Except MasterKeyError MasterKey) :
    (∃ key, r.remember result = (.ok key, { r with cached := some key })) ∨
      ∃ error, result = .error error ∧ r.remember result = (.error error, r) := by
  cases result with
  | ok key => exact Or.inl ⟨key, rfl⟩
  | error error => exact Or.inr ⟨error, rfl, rfl⟩

/-- A resolver that does not ask the keyring finds a key or an error other than a missing key,
whatever the keyring has. -/
theorem resolveExisting_of_settled (derive : Derivation) (h : r.Settled) :
    (∃ key, ∀ entry get,
      resolveExisting derive r entry get = (.ok key, { r with cached := some key })) ∨
      ∃ error, error ≠ .missing ∧ ∀ entry get,
        resolveExisting derive r entry get = (.error error, r) := by
  unfold resolveExisting
  cases hcached : r.cached with
  | some key =>
    have hsame : { r with cached := some key } = r := by rw [← hcached]
    exact Or.inl ⟨key, fun _ _ => by rw [hsame]⟩
  | none =>
    cases hdirect : r.value masterKeyEnv with
    | some value =>
      rcases remember_cases (decodeKey masterKeyEnv value) with ⟨key, hkey⟩ | ⟨error, hval, herr⟩
      · exact Or.inl ⟨key, fun _ _ => hkey⟩
      · refine Or.inr ⟨error, ?_, fun _ _ => herr⟩
        rintro rfl
        exact decodeKey_ne_missing _ _ hval
    | none =>
      cases hphrase : r.value symvaultPassphraseEnv with
      | some passphrase =>
        rcases remember_cases (derivePassphraseKey derive passphrase) with
          ⟨key, hkey⟩ | ⟨error, hval, herr⟩
        · exact Or.inl ⟨key, fun _ _ => hkey⟩
        · refine Or.inr ⟨error, ?_, fun _ _ => herr⟩
          rintro rfl
          unfold derivePassphraseKey at hval
          split at hval
          · cases hval
          · cases hval
      | none =>
        rcases h with h | h | h
        · exact absurd hcached h
        · exact absurd hdirect h
        · exact absurd hphrase h

/-- Otherwise it finds what the keyring returns. -/
theorem resolveExisting_of_not_settled (h : ¬ r.Settled) (hold : Holds entry key) :
    resolveExisting derive r entry get =
      if get = none then (.ok key, { r with cached := some key }) else (.error .missing, r) := by
  unfold Resolver.Settled at h
  push Not at h
  obtain ⟨hcached, hdirect, hphrase⟩ := h
  obtain ⟨value, rfl, source, hkey⟩ := hold
  have hne := ne_empty_of_decodeKey hkey
  unfold resolveExisting
  simp only [hcached, hdirect, hphrase]
  cases get with
  | none =>
    simp [keyringGet, Option.filter, hne, decodeKey_source hkey, Resolver.remember]
  | some fault =>
    cases fault with
    | opening => simp [keyringGet]
    | access => simp [keyringGet]

/-- A cached key is found. -/
theorem resolveExisting_cached (h : r.cached = some key) :
    resolveExisting derive r entry get = (.ok key, r) := by
  unfold resolveExisting
  rw [h]

/-! ### `init` -/

theorem init_of_ok {r' : Resolver} (h : resolveExisting derive r entry get = (.ok key, r')) :
    init derive r entry get set minted = (.ok key, r', entry) := by
  unfold init
  rw [h]

theorem init_of_error {r' : Resolver} {error : MasterKeyError} (hne : error ≠ .missing)
    (h : resolveExisting derive r entry get = (.error error, r')) :
    init derive r entry get set minted = (.error error, r', entry) := by
  unfold init
  rw [h]
  cases error with
  | missing => exact absurd rfl hne
  | invalidHex source => rfl
  | invalidLength source actual => rfl
  | derivationFailed => rfl
  | persistenceFailed => rfl

/-- What `init` does with a valid entry and a resolver that asks the keyring. -/
theorem init_of_not_settled (hr : ¬ r.Settled) (h : Holds entry key) :
    init derive r entry get set minted =
      if get = none then (.ok key, { r with cached := some key }, entry)
      else if set = none then
        (.ok minted, { r with cached := some minted }, some (encodeKey minted))
      else (.error .persistenceFailed, r, entry) := by
  unfold init
  rw [resolveExisting_of_not_settled hr h]
  by_cases hget : get = none
  · simp only [hget, if_true]
  · simp only [hget, if_false]
    cases set with
    | none => simp [keyringSet]
    | some fault => simp [keyringSet]

/-- `init` keeps the key in the entry exactly when the lookup does not fail, or is not needed, or
the new key is not stored, or is the same. -/
theorem init_holds_iff (derive : Derivation) (r : Resolver) (get set : Option KeyringFault)
    (minted : MasterKey) (h : Holds entry key) :
    Holds (init derive r entry get set minted).2.2 key ↔
      r.Settled ∨ get = none ∨ set ≠ none ∨ minted = key := by
  by_cases hr : r.Settled
  · have hentry : (init derive r entry get set minted).2.2 = entry := by
      rcases resolveExisting_of_settled derive hr with ⟨found, hfound⟩ | ⟨error, hne, herror⟩
      · rw [init_of_ok (hfound entry get)]
      · rw [init_of_error hne (herror entry get)]
    rw [hentry]
    exact iff_of_true h (Or.inl hr)
  · rw [init_of_not_settled hr h]
    by_cases hget : get = none
    · simp [hget, h]
    · by_cases hset : set = none
      · have hminted : Holds (some (encodeKey minted)) key ↔ minted = key :=
          ⟨fun hnew => (holds_encodeKey minted).unique hnew, fun heq => heq ▸ holds_encodeKey minted⟩
        simp [hget, hset, hr, hminted]
      · simp [hget, hset, h]

end EraseMe.Identity.Secrets
