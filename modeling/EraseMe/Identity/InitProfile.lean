import EraseMe.Identity.Profile
import EraseMe.Identity.Secrets
import EraseMe.Library.Octets
import EraseMe.Library.Paths

/-!
# `identity::profile`: reading and initialising the profile

The profile is a file sealed under the master key.  `saveProfile` writes it through a temporary
file, `initProfile` makes sure of a key first and drops the key again when the save fails and its
first lookup found none.  That lookup may have failed for once only: the key that is dropped is then
an old one, and the profile cannot be read any more (`profile_kept_iff`).

* JSON and the sealing are a `Codec`; modes, and the flushing of directories, leave no trace.
* Files are kept by the components of their paths, and there are no links.
* Every call of the keyring and every operation that changes a file may fail; reading does not.
-/

namespace EraseMe.Identity.Secrets

/-! ### Paths -/

/-- Where a file is. -/
abbrev Location := List Paths.Component

/-- Where profiles are looked for. -/
structure ProfilePaths where
  home : Option Paths.Path
  environment : String → Option String

namespace ProfilePaths

/-- A variable that is set. -/
def value (paths : ProfilePaths) (name : String) : Option String :=
  (paths.environment name).filter (· ≠ "")

/-- A path with the home directory. -/
def expand (paths : ProfilePaths) (path : Paths.Path) : Paths.Path :=
  match paths.home with
  | none => path
  | some home =>
      if Paths.components path = [.normal ['~']] then home
      else match path with
        | '~' :: '/' :: rest => Paths.join home rest
        | _ => path

/-- The directory of the profile when no path is given. -/
def directory (paths : ProfilePaths) : String :=
  ((paths.value "SYMERASEME_DATA_DIR").or (paths.value "SYMERASEME_CONFIG_DIR")).getD
    "~/.config/symeraseme"

/-- Explicit path, identity override, data override, then config directory. -/
def resolveWrite (paths : ProfilePaths) (path : Paths.Path) : Location :=
  Paths.components <|
    if path ≠ [] then paths.expand path
    else match paths.value "SYMERASEME_IDENTITY_PATH" with
      | some value => paths.expand value.toList
      | none => Paths.join (paths.expand paths.directory.toList) "identity.encrypted".toList

end ProfilePaths

/-- The last name. -/
def fileName (l : Location) : Option (List Char) :=
  match l.getLast? with
  | some (.normal name) => some name
  | _ => none

/-- Another last name. -/
def withFileName (l : Location) (name : List Char) : Location := l.dropLast ++ [.normal name]

/-! ### Files -/

/-- Contents of files. -/
abbrev Bytes := List UInt8

/-- What is at a location. -/
inductive Node
  | file (bytes : Bytes)
  | directory
  | special
  deriving DecidableEq, Repr

/-- The files of the host. -/
abbrev Files := Location → Option Node

/-- The files with one changed. -/
def Files.put (files : Files) (l : Location) (node : Option Node) : Files :=
  fun l' => if l' = l then node else files l'

/-- Make the first `n` directories on the way to a location. -/
def Files.makeDirs (files : Files) (l : Location) (n : ℕ) : Files :=
  fun l' => if files l' = none ∧ l' <+: l ∧ l'.length ≤ n then some .directory else files l'

/-- Something on the way to a location is no directory. -/
def Files.Obstructed (files : Files) (l : Location) : Prop :=
  ∃ l' ∈ l.inits, files l' ≠ none ∧ files l' ≠ some .directory

instance (files : Files) (l : Location) : Decidable (files.Obstructed l) := by
  unfold Files.Obstructed
  infer_instance

/-- Remove a file. -/
def Files.remove (files : Files) (l : Location) (fails : Bool) : Files :=
  if fails ∨ files l = some .directory then files else files.put l none

/-- The other of the two historical basenames. -/
def alternative (name : Option (List Char)) : Option (List Char) :=
  if name = some "identity.encrypted".toList then some "identity.enc".toList
  else if name = some "identity.enc".toList then some "identity.encrypted".toList
  else none

/-- Only the two historical basenames stand in for each other. -/
def ProfilePaths.resolve (paths : ProfilePaths) (files : Files) (path : Paths.Path) : Location :=
  let target := paths.resolveWrite path
  if files target = none then
    match alternative (fileName target) with
    | some name =>
        if files (withFileName target name) ≠ none then withFileName target name else target
    | none => target
  else target

/-! ### Reading a profile -/

/-- Why a profile is not there. -/
inductive ProfileError
  | notFound
  | stat
  | read
  | noSeparator
  | header
  | legacyV0
  | key (error : MasterKeyError)
  | nonce
  | authentication
  | json
  | mkdir
  | write
  deriving DecidableEq, Repr

/-- The header of a profile. -/
structure Envelope where
  version : ℤ
  nonce : String
  algorithm : String
  deriving DecidableEq, Repr

/-- The texts of profiles and headers, the sealing under a nonce with the header as associated data,
and the derivation of keys. -/
structure Codec where
  parseHeader : Bytes → Option Envelope
  header : Envelope → Bytes
  decodeProfile : Bytes → Option Profile
  profilePlaintext : Profile → Bytes
  encrypt : MasterKey → Bytes → Bytes → Bytes → Bytes
  decrypt : MasterKey → Bytes → Bytes → Bytes → Option Bytes
  derive : Derivation

/-- The keyring and the files. -/
structure State where
  entry : Entry
  files : Files

/-- The octets before and after the first line break. -/
def splitHeader (raw : Bytes) : Option (Bytes × Bytes) :=
  if 10 ∈ raw then some (raw.takeWhile (· ≠ 10), (raw.dropWhile (· ≠ 10)).tail) else none

variable (codec : Codec)

/-- Open an envelope with a key. -/
def openEnvelope (header : Envelope) (headerBytes body : Bytes) (key : MasterKey) :
    Except ProfileError Profile :=
  match Hex.decode header.nonce.toList with
  | none => .error .nonce
  | some nonce =>
      if nonce.length ≠ 12 then .error .nonce
      else match codec.decrypt key nonce headerBytes body with
        | none => .error .authentication
        | some plain =>
            match codec.decodeProfile plain with
            | some profile => .ok profile
            | none => .error .json

/-- Read and authenticate a profile with existing keys only. -/
def loadProfile (path : Paths.Path) (paths : ProfilePaths) (r : Resolver) (s : State) :
    Except ProfileError Profile :=
  match s.files (paths.resolve s.files path) with
  | none => .error .notFound
  | some .directory => .error .read
  | some .special => .error .read
  | some (.file raw) =>
      match splitHeader raw with
      | none => .error .noSeparator
      | some (headerBytes, body) =>
          match codec.parseHeader headerBytes with
          | none => .error .header
          | some header =>
              if header.version = 0 then .error .legacyV0
              else match (resolveExisting codec.derive r s.entry none).1 with
                | .error error => .error (.key error)
                | .ok key => openEnvelope codec header headerBytes body key

/-! ### Writing a profile -/

/-- What fails while a profile is saved: a failed `createDirAll` may have made some directories, and
a failed write may have written something. -/
structure SaveFaults where
  createDirAll : Option ℕ := none
  get : Option KeyringFault := none
  create : Bool := false
  write : Option Bytes := none
  sync : Bool := false
  rename : Bool := false
  remove : Bool := false

/-- A profile as a file. -/
def encryptProfile (plaintext : Bytes) (key : MasterKey) (nonce : Bytes) : Bytes :=
  let headerBytes := codec.header ⟨2, String.ofList (Hex.encode nonce), "AES-256-GCM"⟩
  headerBytes ++ 10 :: codec.encrypt key nonce headerBytes plaintext

/-- The temporary file beside a target; the suffix has the process and the time. -/
def temporary (target : Location) (name suffix : List Char) : Location :=
  withFileName target ('.' :: name ++ ".tmp-".toList ++ suffix)

/-- Create, write and flush the temporary file; what is left of it, and whether all went well. -/
def writeTemporary (files : Files) (temporary : Location) (encrypted : Bytes) (f : SaveFaults) :
    Bool × Files :=
  if f.create ∨ files temporary ≠ none then (false, files)
  else match f.write with
    | some written => (false, files.put temporary (some (.file written)))
    | none => (!f.sync, files.put temporary (some (.file encrypted)))

/-- Put the sealed octets in the place of the target. -/
def replaceTarget (files : Files) (target temporary : Location) (encrypted : Bytes)
    (f : SaveFaults) : Except ProfileError Location × Files :=
  match writeTemporary files temporary encrypted f with
  | (false, files) => (.error .write, files.remove temporary f.remove)
  | (true, files) =>
      if f.rename ∨ files target = some .directory then
        (.error .write, files.remove temporary f.remove)
      else (.ok target, (files.put temporary none).put target (some (.file encrypted)))

/-- Seal and write a profile with an existing key. -/
def saveProfile (profile : Profile) (path : Paths.Path) (paths : ProfilePaths) (r : Resolver)
    (s : State) (f : SaveFaults) (nonce : Bytes) (suffix : List Char) :
    Except ProfileError Location × Resolver × State :=
  let target := paths.resolveWrite path
  let directory := target.dropLast
  match f.createDirAll with
  | some n => (.error .mkdir, r, { s with files := s.files.makeDirs directory n })
  | none =>
      if s.files.Obstructed directory then (.error .mkdir, r, s)
      else
        let files := s.files.makeDirs directory directory.length
        match resolveExisting codec.derive r s.entry f.get with
        | (.error error, r) => (.error (.key error), r, { s with files })
        | (.ok key, r) =>
            match fileName target with
            | none => (.error .write, r, { s with files })
            | some name =>
                let encrypted := encryptProfile codec (codec.profilePlaintext profile) key nonce
                let (result, files) :=
                  replaceTarget files target (temporary target name suffix) encrypted f
                (result, r, { s with files })

/-! ### Initialising -/

/-- What fails while a profile is initialised. -/
structure InitFaults where
  probe : Option KeyringFault := none
  lookup : Option KeyringFault := none
  set : Option KeyringFault := none
  save : SaveFaults := {}
  delete : Option KeyringFault := none

/-- Save the profile; a failed save drops the key unless it existed before. -/
def saveOrRollBack (keyExisted : Bool) (profile : Profile) (path : Paths.Path)
    (paths : ProfilePaths) (r : Resolver) (s : State) (f : InitFaults) (nonce : Bytes)
    (suffix : List Char) : Except ProfileError Location × Resolver × State :=
  match saveProfile codec profile path paths r s f.save nonce suffix with
  | (.ok target, r, s) => (.ok target, r, s)
  | (.error error, r, s) =>
      if keyExisted then (.error error, r, s)
      else
        let (_, r, entry) := delete r s.entry f.delete
        (.error error, r, { s with entry })

/-- Initialise the master key, then save the profile. -/
def initProfile (profile : Profile) (path : Paths.Path) (paths : ProfilePaths) (r : Resolver)
    (s : State) (f : InitFaults) (minted : MasterKey) (nonce : Bytes) (suffix : List Char) :
    Except ProfileError Location × Resolver × State :=
  let (found, r) := resolveExisting codec.derive r s.entry f.probe
  match init codec.derive r s.entry f.lookup f.set minted with
  | (.error error, r, entry) => (.error (.key error), r, { s with entry })
  | (.ok _, r, entry) =>
      saveOrRollBack codec found.isOk profile path paths r { s with entry } f nonce suffix

/-! ### What saving leaves alone -/

/-- The save goes through. -/
structure Saves (path : Paths.Path) (paths : ProfilePaths) (files : Files) (f : SaveFaults)
    (suffix : List Char) : Prop where
  createDirAll : f.createDirAll = none
  unobstructed : ¬ files.Obstructed (paths.resolveWrite path).dropLast
  named : ∃ name, fileName (paths.resolveWrite path) = some name ∧
    files (temporary (paths.resolveWrite path) name suffix) = none
  create : f.create = false
  write : f.write = none
  sync : f.sync = false
  rename : f.rename = false
  replaceable : files (paths.resolveWrite path) ≠ some .directory

/-- Everything but the temporary file and missing directories is as before. -/
def Undisturbed (target : Location) (suffix : List Char) (files files' : Files) : Prop :=
  ∀ l, (∀ name, fileName target = some name → l ≠ temporary target name suffix) →
    files l ≠ none ∨ target.dropLast.length < l.length → files' l = files l

variable {codec} {path : Paths.Path} {paths : ProfilePaths} {r : Resolver} {s : State}
  {files files' : Files} {target l : Location} {name suffix : List Char} {key minted : MasterKey}
  {f : SaveFaults}

theorem fileName_eq_some (h : fileName target = some name) :
    target = target.dropLast ++ [.normal name] := by
  unfold fileName at h
  split at h
  · rename_i last hlast
    cases h
    exact (List.dropLast_append_getLast? _ hlast).symm
  · cases h

theorem temporary_ne (h : fileName target = some name) : target ≠ temporary target name suffix := by
  intro heq
  have hparts : target.dropLast ++ [Paths.Component.normal name] =
      target.dropLast ++ [.normal ('.' :: name ++ ".tmp-".toList ++ suffix)] :=
    (fileName_eq_some h).symm.trans heq
  have hname := List.append_cancel_left hparts
  simp only [List.cons.injEq, Paths.Component.normal.injEq, and_true] at hname
  have hlength := congrArg List.length hname
  simp at hlength
  omega

theorem length_of_fileName (h : fileName target = some name) :
    target.length = target.dropLast.length + 1 := by
  have hparts := congrArg List.length (fileName_eq_some h)
  simpa using hparts

@[simp] theorem put_self (files : Files) (l : Location) (node : Option Node) :
    files.put l node l = node := by
  simp [Files.put]

theorem put_of_ne {l' : Location} (files : Files) (node : Option Node) (h : l' ≠ l) :
    files.put l node l' = files l' := by
  simp [Files.put, h]

theorem makeDirs_of_long (n : ℕ) {l' : Location} (h : l.length < l'.length) :
    files.makeDirs l n l' = files l' := by
  unfold Files.makeDirs
  rw [if_neg]
  rintro ⟨-, hprefix, -⟩
  have := hprefix.length_le
  omega

theorem makeDirs_of_some (n : ℕ) {l' : Location} (h : files l' ≠ none) :
    files.makeDirs l n l' = files l' := by
  unfold Files.makeDirs
  rw [if_neg]
  exact fun hnone => h hnone.1

theorem undisturbed_makeDirs (target : Location) (suffix : List Char) (files : Files) (n : ℕ) :
    Undisturbed target suffix files (files.makeDirs target.dropLast n) := by
  intro l _ h
  rcases h with h | h
  · exact makeDirs_of_some n h
  · exact makeDirs_of_long n h

theorem remove_of_ne {fails : Bool} {l' : Location} (h : l' ≠ l) :
    files.remove l fails l' = files l' := by
  unfold Files.remove
  split_ifs
  · rfl
  · exact put_of_ne files none h

theorem writeTemporary_of_ne {encrypted : Bytes} {l' : Location} (h : l' ≠ l) :
    (writeTemporary files l encrypted f).2 l' = files l' := by
  unfold writeTemporary
  split_ifs
  · rfl
  · split
    · exact put_of_ne files _ h
    · exact put_of_ne files _ h

/-- A failed replacement leaves all but the temporary file alone. -/
theorem replaceTarget_error {temporary : Location} {encrypted : Bytes} {error : ProfileError}
    {files' : Files} (h : replaceTarget files target temporary encrypted f = (.error error, files'))
    {l' : Location} (hne : l' ≠ temporary) : files' l' = files l' := by
  unfold replaceTarget at h
  have hwrite : (writeTemporary files temporary encrypted f).2 l' = files l' :=
    writeTemporary_of_ne hne
  cases hw : writeTemporary files temporary encrypted f with
  | mk written files'' =>
    rw [hw] at h hwrite
    cases written with
    | false =>
      cases h
      rw [remove_of_ne hne]
      exact hwrite
    | true =>
      simp only at h
      split_ifs at h
      · cases h
        rw [remove_of_ne hne]
        exact hwrite
      · cases h

theorem replaceTarget_isOk_iff {temporary : Location} {encrypted : Bytes}
    (hne : target ≠ temporary) :
    (replaceTarget files target temporary encrypted f).1.isOk = true ↔
      (f.create = false ∧ files temporary = none) ∧ f.write = none ∧ f.sync = false ∧
        f.rename = false ∧ files target ≠ some .directory := by
  unfold replaceTarget writeTemporary
  by_cases hcreate : f.create = true ∨ files temporary ≠ none
  · rw [if_pos hcreate]
    refine iff_of_false (by simp [Except.isOk, Except.toBool]) fun h => ?_
    rcases hcreate with hcreate | hcreate
    · rw [h.1.1] at hcreate
      cases hcreate
    · exact hcreate h.1.2
  · rw [if_neg hcreate]
    push Not at hcreate
    rw [ne_eq, Bool.not_eq_true] at hcreate
    cases hwrite : f.write with
    | some written => simp [Except.isOk, Except.toBool]
    | none =>
      cases hsync : f.sync with
      | true => simp [Except.isOk, Except.toBool]
      | false =>
        simp only [Bool.not_false, put_of_ne files _ hne, hcreate, true_and]
        cases hrename : f.rename with
        | true => simp [Except.isOk, Except.toBool]
        | false =>
          by_cases hdir : files target = some .directory
          · simp [hdir, Except.isOk, Except.toBool]
          · simp [hdir, Except.isOk, Except.toBool]

variable {profile : Profile} {nonce : Bytes}

/-- With a cached key a save is a success exactly when it goes through. -/
theorem saveProfile_isOk_iff (hcached : r.cached = some key) :
    (saveProfile codec profile path paths r s f nonce suffix).1.isOk = true ↔
      Saves path paths s.files f suffix := by
  unfold saveProfile
  simp only [resolveExisting_cached hcached]
  cases hmkdir : f.createDirAll with
  | some n =>
    refine iff_of_false (by simp [Except.isOk, Except.toBool]) fun h => ?_
    rw [h.createDirAll] at hmkdir
    cases hmkdir
  | none =>
    by_cases hobstructed : s.files.Obstructed (paths.resolveWrite path).dropLast
    · rw [if_pos hobstructed]
      exact iff_of_false (by simp [Except.isOk, Except.toBool]) fun h =>
        h.unobstructed hobstructed
    · rw [if_neg hobstructed]
      cases hname : fileName (paths.resolveWrite path) with
      | none =>
        refine iff_of_false (by simp [Except.isOk, Except.toBool]) fun h => ?_
        obtain ⟨name, hname', -⟩ := h.named
        rw [hname'] at hname
        cases hname
      | some name =>
        have hlong : ∀ {l : Location}, (paths.resolveWrite path).dropLast.length < l.length →
            s.files.makeDirs (paths.resolveWrite path).dropLast
              (paths.resolveWrite path).dropLast.length l = s.files l :=
          fun h => makeDirs_of_long _ h
        have htarget := hlong (l := paths.resolveWrite path) (by
          rw [length_of_fileName hname]
          omega)
        have htemporary := hlong (l := temporary (paths.resolveWrite path) name suffix) (by
          simp [temporary, withFileName])
        change Except.isOk (replaceTarget _ _ _ _ f).1 = true ↔ _
        rw [replaceTarget_isOk_iff (temporary_ne hname), htarget, htemporary]
        constructor
        · rintro ⟨⟨hcreate, hfree⟩, hwrite, hsync, hrename, hdir⟩
          exact ⟨hmkdir, hobstructed, ⟨name, hname, hfree⟩, hcreate, hwrite, hsync, hrename, hdir⟩
        · rintro ⟨-, -, ⟨name', hname', hfree⟩, hcreate, hwrite, hsync, hrename, hdir⟩
          rw [hname] at hname'
          cases hname'
          exact ⟨⟨hcreate, hfree⟩, hwrite, hsync, hrename, hdir⟩

/-- A save leaves the keyring alone. -/
theorem saveProfile_entry (hcached : r.cached = some key) :
    (saveProfile codec profile path paths r s f nonce suffix).2.2.entry = s.entry := by
  unfold saveProfile
  simp only [resolveExisting_cached hcached]
  split
  · rfl
  · split_ifs
    · rfl
    · split
      · rfl
      · rfl

/-- A failed save disturbs nothing. -/
theorem saveProfile_undisturbed {error : ProfileError} {r' : Resolver} {s' : State}
    (h : saveProfile codec profile path paths r s f nonce suffix = (.error error, r', s')) :
    Undisturbed (paths.resolveWrite path) suffix s.files s'.files := by
  unfold saveProfile at h
  simp only at h
  split at h
  · cases h
    exact undisturbed_makeDirs _ suffix _ _
  · split_ifs at h
    · cases h
      exact fun l _ _ => rfl
    · split at h
      · cases h
        exact undisturbed_makeDirs _ suffix _ _
      · split at h
        · cases h
          exact undisturbed_makeDirs _ suffix _ _
        · rename_i name hname
          cases hreplace : replaceTarget (s.files.makeDirs (paths.resolveWrite path).dropLast
              (paths.resolveWrite path).dropLast.length) (paths.resolveWrite path)
              (temporary (paths.resolveWrite path) name suffix) (encryptProfile codec
                (codec.profilePlaintext profile) _ nonce) f with
          | mk result files' =>
            rw [hreplace] at h
            cases h
            intro l hne hl
            change files' l = s.files l
            rw [replaceTarget_error hreplace (hne name hname)]
            exact undisturbed_makeDirs _ suffix _ _ l hne hl

/-- A profile that could be read is where it was. -/
theorem resolve_of_undisturbed (h : Undisturbed (paths.resolveWrite path) suffix files files')
    {raw : Bytes} (hread : files (paths.resolve files path) = some (.file raw)) :
    paths.resolve files' path = paths.resolve files path ∧
      files' (paths.resolve files path) = some (.file raw) := by
  set target := paths.resolveWrite path with htarget
  have hself : ∀ name, fileName target = some name → target ≠ temporary target name suffix :=
    fun name hname => temporary_ne hname
  unfold ProfilePaths.resolve at hread ⊢
  simp only [← htarget] at hread ⊢
  by_cases hnone : files target = none
  · rw [if_pos hnone] at hread ⊢
    cases hname : fileName target with
    | none =>
      rw [hname] at hread
      simp [alternative, hnone] at hread
    | some name =>
      have hlong : target.dropLast.length < target.length := by
        rw [length_of_fileName hname]
        omega
      rw [hname] at hread
      rw [h target hself (Or.inr hlong), if_pos hnone]
      cases halt : alternative (some name) with
      | none =>
        rw [halt] at hread
        simp [hnone] at hread
      | some other =>
        have hother : ∀ name', fileName target = some name' →
            withFileName target other ≠ temporary target name' suffix := by
          intro name' hname' heq
          have hparts := List.append_cancel_left heq
          simp only [List.cons.injEq, Paths.Component.normal.injEq, and_true] at hparts
          unfold alternative at halt
          split_ifs at halt
          all_goals
            cases halt
            cases hparts
        have halternate := h (withFileName target other) hother (Or.inr (by simp [withFileName]))
        simp only [halt] at hread ⊢
        rw [halternate]
        by_cases hsome : files (withFileName target other) ≠ none
        · rw [if_pos hsome] at hread ⊢
          exact ⟨rfl, halternate.trans hread⟩
        · rw [if_neg hsome, hnone] at hread
          cases hread
  · rw [if_neg hnone] at hread ⊢
    have hsame := h target hself (Or.inl hnone)
    rw [hsame, if_neg hnone]
    exact ⟨rfl, hread⟩

/-! ### What initialising does to the key -/

variable {g : InitFaults}

/-- A save that goes through needs no rollback. -/
theorem saveOrRollBack_of_saves {keyExisted : Bool} (hcached : r.cached = some key)
    (h : Saves path paths s.files g.save suffix) :
    (saveOrRollBack codec keyExisted profile path paths r s g nonce suffix).1.isOk = true ∧
      (saveOrRollBack codec keyExisted profile path paths r s g nonce suffix).2.2.entry =
        s.entry := by
  have hok : (saveProfile codec profile path paths r s g.save nonce suffix).1.isOk = true :=
    (saveProfile_isOk_iff hcached).2 h
  have hkeeps : (saveProfile codec profile path paths r s g.save nonce suffix).2.2.entry =
    s.entry := saveProfile_entry hcached
  unfold saveOrRollBack
  cases hsave : saveProfile codec profile path paths r s g.save nonce suffix with
  | mk result rest =>
    rw [hsave] at hok hkeeps
    cases result with
    | ok target => exact ⟨rfl, hkeeps⟩
    | error error => cases hok

/-- A save that does not go through is rolled back, and disturbs no file. -/
theorem saveOrRollBack_of_not_saves {keyExisted : Bool} (hcached : r.cached = some key)
    (h : ¬ Saves path paths s.files g.save suffix) :
    (saveOrRollBack codec keyExisted profile path paths r s g nonce suffix).1.isOk = false ∧
      (saveOrRollBack codec keyExisted profile path paths r s g nonce suffix).2.2.entry =
        (if keyExisted = true ∨ g.delete ≠ none then s.entry else none) ∧
      Undisturbed (paths.resolveWrite path) suffix s.files
        (saveOrRollBack codec keyExisted profile path paths r s g nonce suffix).2.2.files := by
  have hok : (saveProfile codec profile path paths r s g.save nonce suffix).1.isOk ≠ true :=
    mt (saveProfile_isOk_iff hcached).1 h
  have hkeeps : (saveProfile codec profile path paths r s g.save nonce suffix).2.2.entry =
    s.entry := saveProfile_entry hcached
  unfold saveOrRollBack
  cases hsave : saveProfile codec profile path paths r s g.save nonce suffix with
  | mk result rest =>
    obtain ⟨r', s'⟩ := rest
    rw [hsave] at hok hkeeps
    cases result with
    | ok target => exact absurd rfl hok
    | error error =>
      have hun := saveProfile_undisturbed hsave
      cases keyExisted with
      | true => exact ⟨rfl, by simpa using hkeeps, hun⟩
      | false =>
        refine ⟨rfl, ?_, hun⟩
        cases hdelete : g.delete with
        | none => simp [delete, keyringDelete]
        | some fault => simpa [delete, keyringDelete] using hkeeps

/-- A resolver that does not ask the keyring: the key existed, or there is none to save with. -/
theorem initProfile_of_settled (hr : r.Settled) :
    (∃ key r', r'.cached = some key ∧
      initProfile codec profile path paths r s g minted nonce suffix =
        saveOrRollBack codec true profile path paths r' s g nonce suffix) ∨
      ∃ error, initProfile codec profile path paths r s g minted nonce suffix =
        (.error (.key error), r, s) := by
  unfold initProfile
  rcases resolveExisting_of_settled codec.derive hr with ⟨key, hfound⟩ | ⟨error, hne, herror⟩
  · refine Or.inl ⟨key, { r with cached := some key }, rfl, ?_⟩
    rw [hfound]
    simp only
    rw [init_of_ok (resolveExisting_cached rfl)]
    rfl
  · refine Or.inr ⟨error, ?_⟩
    rw [herror]
    simp only
    rw [init_of_error hne (herror s.entry g.lookup)]

/-- A resolver that asks the keyring, with a key in the entry. -/
theorem initProfile_of_not_settled (hr : ¬ r.Settled) (hold : Holds s.entry key) :
    initProfile codec profile path paths r s g minted nonce suffix =
      if g.probe = none then
        saveOrRollBack codec true profile path paths { r with cached := some key } s g nonce suffix
      else if g.lookup = none then
        saveOrRollBack codec false profile path paths { r with cached := some key } s g nonce suffix
      else if g.set = none then
        saveOrRollBack codec false profile path paths { r with cached := some minted }
          { s with entry := some (encodeKey minted) } g nonce suffix
      else (.error (.key .persistenceFailed), r, s) := by
  unfold initProfile
  rw [resolveExisting_of_not_settled hr hold]
  by_cases hprobe : g.probe = none
  · rw [if_pos hprobe, if_pos hprobe]
    simp only
    rw [init_of_ok (resolveExisting_cached rfl)]
    rfl
  · rw [if_neg hprobe, if_neg hprobe]
    simp only
    rw [init_of_not_settled hr hold]
    split_ifs
    · rfl
    · rfl
    · rfl

/-- When an initialisation keeps the key in the entry. -/
def KeyKept (path : Paths.Path) (paths : ProfilePaths) (r : Resolver) (files : Files)
    (g : InitFaults) (suffix : List Char) (minted key : MasterKey) : Prop :=
  r.Settled ∨ g.probe = none ∨ g.lookup ≠ none ∧ g.set ≠ none ∨
    (g.lookup = none ∨ minted = key) ∧ (Saves path paths files g.save suffix ∨ g.delete ≠ none)

/-- When a failed initialisation keeps the profile readable. -/
def ProfileKept (codec : Codec) (path : Paths.Path) (paths : ProfilePaths) (r : Resolver)
    (s : State) (g : InitFaults) (minted : MasterKey) (q : Profile) : Prop :=
  r.Settled ∨ g.probe = none ∨ g.lookup ≠ none ∧ g.set ≠ none ∨
    g.delete ≠ none ∧ (g.lookup = none ∨
      loadProfile codec path paths r.fresh { s with entry := some (encodeKey minted) } = .ok q)

/-- The rollback with a key that did not exist drops the entry. -/
theorem holds_saveOrRollBack_iff (hcached : r.cached ≠ none) :
    Holds (saveOrRollBack codec false profile path paths r s g nonce suffix).2.2.entry key ↔
      Holds s.entry key ∧ (Saves path paths s.files g.save suffix ∨ g.delete ≠ none) := by
  obtain ⟨found, hfound⟩ := Option.ne_none_iff_exists'.1 hcached
  by_cases hsaves : Saves path paths s.files g.save suffix
  · rw [(saveOrRollBack_of_saves hfound hsaves).2]
    simp [hsaves]
  · rw [(saveOrRollBack_of_not_saves hfound hsaves).2.1]
    by_cases hdelete : g.delete = none
    · simp [hdelete, hsaves, not_holds_none]
    · simp [hdelete]

theorem saveOrRollBack_existed_entry (hcached : r.cached = some key) :
    (saveOrRollBack codec true profile path paths r s g nonce suffix).2.2.entry = s.entry := by
  by_cases hsaves : Saves path paths s.files g.save suffix
  · exact (saveOrRollBack_of_saves hcached hsaves).2
  · rw [(saveOrRollBack_of_not_saves hcached hsaves).2.1]
    simp

theorem initProfile_holds_iff (hold : Holds s.entry key) :
    Holds (initProfile codec profile path paths r s g minted nonce suffix).2.2.entry key ↔
      KeyKept path paths r s.files g suffix minted key := by
  unfold KeyKept
  by_cases hr : r.Settled
  · refine iff_of_true ?_ (Or.inl hr)
    rcases initProfile_of_settled hr with ⟨found, r', hcached, hrun⟩ | ⟨error, hrun⟩
    · rw [hrun, saveOrRollBack_existed_entry hcached]
      exact hold
    · rw [hrun]
      exact hold
  · rw [initProfile_of_not_settled hr hold]
    by_cases hprobe : g.probe = none
    · rw [if_pos hprobe, saveOrRollBack_existed_entry rfl]
      exact iff_of_true hold (Or.inr (Or.inl hprobe))
    · rw [if_neg hprobe]
      by_cases hlookup : g.lookup = none
      · rw [if_pos hlookup, holds_saveOrRollBack_iff (by simp)]
        simp [hr, hprobe, hlookup, hold]
      · rw [if_neg hlookup]
        by_cases hset : g.set = none
        · have hminted : Holds (some (encodeKey minted)) key ↔ minted = key :=
            ⟨fun hnew => (holds_encodeKey minted).unique hnew, fun h => h ▸ holds_encodeKey minted⟩
          rw [if_pos hset, holds_saveOrRollBack_iff (by simp)]
          simp [hr, hprobe, hlookup, hset, hminted]
        · rw [if_neg hset]
          simp [hlookup, hset, hold]

/-! ### What initialising does to the profile -/

/-- A profile that is read is in a file, and is opened with a key that the resolver finds. -/
theorem loadProfile_ok {q : Profile} (h : loadProfile codec path paths r s = .ok q) :
    (∃ raw, s.files (paths.resolve s.files path) = some (.file raw)) ∧
      ∃ key, (resolveExisting codec.derive r s.entry none).1 = .ok key := by
  unfold loadProfile at h
  split at h
  · cases h
  · cases h
  · cases h
  · rename_i raw hraw
    refine ⟨⟨raw, hraw⟩, ?_⟩
    split at h
    · cases h
    · split at h
      · cases h
      · split_ifs at h
        split at h
        · cases h
        · rename_i key hkey
          exact ⟨key, hkey⟩

/-- Reading depends on the file that is found and on the entry. -/
theorem loadProfile_congr {entry : Entry} {q : Profile}
    (h : loadProfile codec path paths r s = .ok q)
    (hun : Undisturbed (paths.resolveWrite path) suffix s.files files') :
    loadProfile codec path paths r ⟨entry, files'⟩ =
      loadProfile codec path paths r { s with entry } := by
  obtain ⟨⟨raw, hraw⟩, -⟩ := loadProfile_ok h
  obtain ⟨hresolve, hfile⟩ := resolve_of_undisturbed hun hraw
  unfold loadProfile
  simp only [hresolve, hfile, hraw]

theorem not_settled_fresh (hr : ¬ r.Settled) : ¬ r.fresh.Settled := by
  intro h
  rcases h with h | h | h
  · exact h rfl
  · exact hr (Or.inr (Or.inl h))
  · exact hr (Or.inr (Or.inr h))

/-- A resolver that asks the keyring finds the key of the entry. -/
theorem holds_of_resolveExisting {entry : Entry} (hr : ¬ r.Settled)
    (h : (resolveExisting codec.derive r entry none).1 = .ok key) : Holds entry key := by
  unfold Resolver.Settled at hr
  push Not at hr
  obtain ⟨hcached, hdirect, hphrase⟩ := hr
  unfold resolveExisting at h
  simp only [hcached, hdirect, hphrase] at h
  cases entry with
  | none => simp [keyringGet] at h
  | some value =>
    by_cases hempty : value = ""
    · simp [keyringGet, Option.filter, hempty] at h
    · refine ⟨value, rfl, "stored keychain master key", ?_⟩
      simp only [keyringGet, Option.filter, hempty, ne_eq, not_false_eq_true, decide_true,
        if_true] at h
      unfold Resolver.remember at h
      split at h
      · rename_i found hfound
        cases h
        exact hfound
      · cases h

/-- Without an entry the profile cannot be read. -/
theorem loadProfile_none_ne {q : Profile} (hr : ¬ r.Settled) :
    loadProfile codec path paths r { s with entry := none } ≠ .ok q := by
  intro h
  obtain ⟨-, key, hkey⟩ := loadProfile_ok h
  exact not_holds_none (holds_of_resolveExisting hr hkey)

/-- After a rollback the profile is read with what is left in the entry. -/
theorem loadProfile_saveOrRollBack {keyExisted : Bool} {r₀ : Resolver} {entry : Entry} {q : Profile}
    {error : ProfileError} (hcached : r.cached ≠ none)
    (h : loadProfile codec path paths r₀ s = .ok q)
    (hfail : (saveOrRollBack codec keyExisted profile path paths r { s with entry } g nonce
      suffix).1 = .error error) :
    loadProfile codec path paths r₀
        (saveOrRollBack codec keyExisted profile path paths r { s with entry } g nonce suffix).2.2 =
      loadProfile codec path paths r₀
        { s with entry := if keyExisted = true ∨ g.delete ≠ none then entry else none } := by
  obtain ⟨found, hfound⟩ := Option.ne_none_iff_exists'.1 hcached
  by_cases hsaves : Saves path paths ({ s with entry } : State).files g.save suffix
  · have hok : (saveOrRollBack codec keyExisted profile path paths r { s with entry } g nonce
        suffix).1.isOk = true := (saveOrRollBack_of_saves hfound hsaves).1
    rw [hfail] at hok
    cases hok
  · have hrun : _ ∧ (saveOrRollBack codec keyExisted profile path paths r { s with entry } g nonce
        suffix).2.2.entry = _ ∧ _ := saveOrRollBack_of_not_saves hfound hsaves
    obtain ⟨-, hentry, hun⟩ := hrun
    rw [← hentry]
    exact loadProfile_congr h hun

/-- A failed initialisation keeps a profile readable exactly in these cases. -/
theorem initProfile_loads_iff {q : Profile} {error : ProfileError}
    (h : loadProfile codec path paths r.fresh s = .ok q)
    (hfail : (initProfile codec profile path paths r s g minted nonce suffix).1 = .error error) :
    loadProfile codec path paths r.fresh
        (initProfile codec profile path paths r s g minted nonce suffix).2.2 = .ok q ↔
      ProfileKept codec path paths r s g minted q := by
  unfold ProfileKept
  by_cases hr : r.Settled
  · refine iff_of_true ?_ (Or.inl hr)
    rcases initProfile_of_settled hr with ⟨found, r', hcached, hrun⟩ | ⟨error', hrun⟩
    · rw [hrun] at hfail ⊢
      rw [loadProfile_saveOrRollBack (by simp [hcached]) h hfail, if_pos (Or.inl rfl)]
      exact h
    · rw [hrun]
      exact h
  · have hr' := not_settled_fresh hr
    obtain ⟨-, key, hkey⟩ := loadProfile_ok h
    have hold : Holds s.entry key := holds_of_resolveExisting hr' hkey
    rw [initProfile_of_not_settled hr hold] at hfail ⊢
    by_cases hprobe : g.probe = none
    · rw [if_pos hprobe] at hfail ⊢
      rw [loadProfile_saveOrRollBack (by simp) h hfail, if_pos (Or.inl rfl)]
      exact iff_of_true h (Or.inr (Or.inl hprobe))
    · rw [if_neg hprobe] at hfail ⊢
      by_cases hlookup : g.lookup = none
      · rw [if_pos hlookup] at hfail ⊢
        rw [loadProfile_saveOrRollBack (by simp) h hfail]
        by_cases hdelete : g.delete = none
        · rw [if_neg (by simp [hdelete])]
          refine iff_of_false (loadProfile_none_ne hr') ?_
          simp [hr, hprobe, hlookup, hdelete]
        · rw [if_pos (Or.inr hdelete)]
          exact iff_of_true h (Or.inr (Or.inr (Or.inr ⟨hdelete, Or.inl hlookup⟩)))
      · rw [if_neg hlookup] at hfail ⊢
        by_cases hset : g.set = none
        · rw [if_pos hset] at hfail ⊢
          rw [loadProfile_saveOrRollBack (by simp) h hfail]
          by_cases hdelete : g.delete = none
          · rw [if_neg (by simp [hdelete])]
            refine iff_of_false (loadProfile_none_ne hr') ?_
            simp [hr, hprobe, hlookup, hset, hdelete]
          · rw [if_pos (Or.inr hdelete)]
            simp [hr, hprobe, hlookup, hset, hdelete]
        · rw [if_neg hset]
          exact iff_of_true h (Or.inr (Or.inr (Or.inl ⟨hlookup, hset⟩)))

/-- For every pattern of failures: when `init` and `initProfile` keep a valid key in the entry, and
when a failed `initProfile` keeps a profile readable. -/
theorem profile_kept_iff (codec : Codec) (minted : MasterKey) :
    (∀ (r : Resolver) (entry : Entry) (get set : Option KeyringFault) (key : MasterKey),
      Holds entry key → (Holds (init codec.derive r entry get set minted).2.2 key ↔
        r.Settled ∨ get = none ∨ set ≠ none ∨ minted = key)) ∧
    ∀ (profile : Profile) (path : Paths.Path) (paths : ProfilePaths) (r : Resolver) (s : State)
      (g : InitFaults) (nonce : Bytes) (suffix : List Char),
      (∀ key, Holds s.entry key →
        (Holds (initProfile codec profile path paths r s g minted nonce suffix).2.2.entry key ↔
          KeyKept path paths r s.files g suffix minted key)) ∧
      ∀ q error, loadProfile codec path paths r.fresh s = .ok q →
        (initProfile codec profile path paths r s g minted nonce suffix).1 = .error error →
        (loadProfile codec path paths r.fresh
            (initProfile codec profile path paths r s g minted nonce suffix).2.2 = .ok q ↔
          ProfileKept codec path paths r s g minted q) :=
  ⟨fun r _ get set _ hold => init_holds_iff codec.derive r get set minted hold,
    fun _ _ _ _ _ _ _ _ => ⟨fun _ hold => initProfile_holds_iff hold,
      fun _ _ h hfail => initProfile_loads_iff h hfail⟩⟩

/-! ### A profile at home -/

/-- The key of before. -/
def oldKey : MasterKey := ⟨List.replicate 32 7, rfl⟩

/-- The key of now. -/
def newKey : MasterKey := ⟨List.replicate 32 9, rfl⟩

/-- A profile with a name. -/
def joDoe : Profile := { fullName := "Jo Doe" }

/-- The header and the text of one profile; a sealed text starts with its key. -/
def joCodec : Codec where
  parseHeader bytes :=
    if bytes = Utf8.encode
        "\x7b\"version\":2,\"nonce\":\"000102030405060708090a0b\",\"algorithm\":\"AES-256-GCM\"\x7d" then
      some ⟨2, "000102030405060708090a0b", "AES-256-GCM"⟩
    else none
  header _ := Utf8.encode
    "\x7b\"version\":2,\"nonce\":\"000102030405060708090a0b\",\"algorithm\":\"AES-256-GCM\"\x7d"
  decodeProfile plain :=
    if plain = Utf8.encode "\x7b\"full_name\":\"Jo Doe\"\x7d" then some joDoe else none
  profilePlaintext _ := Utf8.encode "\x7b\"full_name\":\"Jo Doe\"\x7d"
  encrypt key _ _ plain := key.bytes ++ plain
  decrypt key _ _ sealed :=
    if sealed.take 32 = key.bytes then some (sealed.drop 32) else none
  derive _ := none

/-- Paths under a home. -/
def homePaths : ProfilePaths := ⟨some "/home/jo".toList, fun _ => none⟩

/-- A resolver without a key. -/
def bareResolver : Resolver := ⟨fun _ => none, none⟩

/-- The key is in the keyring, and the profile is sealed with it. -/
def homeState : State where
  entry := some (encodeKey oldKey)
  files l := if l = homePaths.resolveWrite [] then
    some (.file (encryptProfile joCodec (joCodec.profilePlaintext joDoe) oldKey
      [0, 1, 2, 3, 4, 5, 6, 7, 8, 9, 10, 11])) else none

/-- A failed save after an undisturbed first lookup loses nothing. -/
theorem profile_kept_home :
    let run := initProfile joCodec joDoe [] homePaths bareResolver homeState
      { save := { rename := true } } newKey (List.replicate 12 0) "1-2".toList
    run.1 = .error .write ∧ Holds run.2.2.entry oldKey ∧
      loadProfile joCodec [] homePaths bareResolver run.2.2 = .ok joDoe := by
  intro run
  have hfail : run.1 = .error .write := by decide
  have hload : loadProfile joCodec [] homePaths bareResolver.fresh homeState = .ok joDoe := by
    decide
  have h := (profile_kept_iff joCodec newKey).2 joDoe [] homePaths bareResolver homeState
    { save := { rename := true } } (List.replicate 12 0) "1-2".toList
  refine ⟨hfail, (h.1 oldKey (holds_encodeKey oldKey)).2 ?_, (h.2 joDoe .write hload hfail).2 ?_⟩
  · exact Or.inr (Or.inl rfl)
  · exact Or.inr (Or.inl rfl)

/-- A first lookup that fails once, and a save that fails: the key is gone, and so is the profile.
When the lookups of `init` fail, the new key takes the place of the old one. -/
theorem profile_lost_home :
    let r := bareResolver
    let run := initProfile joCodec joDoe [] homePaths r homeState
      { probe := some .access, save := { rename := true } } newKey (List.replicate 12 0)
      "1-2".toList
    Holds homeState.entry oldKey ∧
      loadProfile joCodec [] homePaths r homeState = .ok joDoe ∧
      (init joCodec.derive r homeState.entry (some .access) none newKey).2.2 =
        some (encodeKey newKey) ∧
      ¬ Holds (init joCodec.derive r homeState.entry (some .access) none newKey).2.2 oldKey ∧
      run.1 = .error .write ∧ run.2.2.entry = none ∧
      loadProfile joCodec [] homePaths r run.2.2 = .error (.key .missing) := by
  intro r run
  have hnew : (init joCodec.derive r homeState.entry (some .access) none newKey).2.2 =
      some (encodeKey newKey) := by decide
  refine ⟨holds_encodeKey oldKey, by decide, hnew, ?_, by decide,
    by decide, by decide⟩
  rw [hnew]
  intro h
  have hkeys := (holds_encodeKey newKey).unique h
  exact absurd (congrArg MasterKey.bytes hkeys) (by decide)

end EraseMe.Identity.Secrets
