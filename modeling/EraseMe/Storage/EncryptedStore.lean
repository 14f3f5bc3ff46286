import EraseMe.Library.Faulty
import EraseMe.Library.WriteAhead
import EraseMe.Storage.Encryption

/-!
# `storage::encrypted_store`: the lifecycle of an encrypted store

The store of one canonical path, with everything that may fail: `openEncrypted` decrypts the
canonical file into a temporary database, transactions go there, `closeStore` encrypts it back, and
`finaliseAll` does so again for a store whose closing failed.

* A file has a name and a part (the file itself, the sidecars of SQLite, its lock file).  The
  numbers in names are random in the source; here the `n`-th number drawn is `Environment.id n`, and
  no number is drawn twice.
* SQLite is a `WriteAhead.Database`, the primitives of the envelopes a `Crypto`.
* A directory is there once it has been created, and modes are not kept: both only fail.
* The registry is the one of this path, and `State.stores` holds the stores that are alive.  A store
  that `closeStore` has taken leaves the list when it is dropped.
-/

namespace EraseMe.EncryptedStore

open Encryption Faulty Faulty.Prog

/-! ### Errors -/

/-- The kinds of failures. -/
inductive ErrorKind
  | notFound
  | alreadyExists
  | wouldBlock
  | other
  deriving DecidableEq, Repr

/-- A failure and its text. -/
structure IoError where
  kind : ErrorKind
  message : String
  deriving DecidableEq, Repr

/-- The files of one path, without their parts. -/
inductive Name
  | canonical
  | initializer (id : ℕ)
  | decrypted (id : ℕ)
  | writing (id : ℕ)
  | recovery (id : ℕ)
  deriving DecidableEq, Repr

/-- The files of a store. -/
inductive Part
  | main
  | wal
  | shm
  | lock
  deriving DecidableEq, Repr

/-- A file of a store. -/
structure FileName where
  name : Name
  part : Part
  deriving DecidableEq, Repr

/-- Why a lock fails. -/
inductive LockError
  | acquire (path : FileName) (source : IoError)
  | release (path : FileName) (source : IoError)
  deriving DecidableEq, Repr

/-- Why a checkpoint fails. -/
inductive CheckpointError
  | busy (busy logFrames checkpointed : ℤ)
  | query (error : String)
  deriving DecidableEq, Repr

/-- What `encrypt_v3` adds to the errors of the envelopes. -/
inductive SealError
  | encryption (error : EncryptionError)
  | randomnessUnavailable
  | clockUnavailable
  deriving DecidableEq, Repr

/-- Why a store fails. -/
inductive EncryptedStoreError
  | lock (error : LockError)
  | io (error : IoError)
  | sqlite (error : String)
  | encryption (error : SealError)
  | checkpoint (error : CheckpointError)
  | masterKeyUnavailable
  | directorySyncFailed (path : FileName) (recoveryPath : Option FileName) (source : IoError)
  | conversionFailed (message : String) (recoveryPath : Option FileName)
  deriving DecidableEq, Repr

/-! ### What may fail -/

/-- The directories. -/
inductive Dir
  | parent
  | temp
  deriving DecidableEq, Repr

/-- What the host is asked to do. -/
inductive Operation
  | createDirAll (dir : Dir)
  | setDirPermissions (dir : Dir)
  | openDir (dir : Dir)
  | syncDir (dir : Dir)
  | create (file : FileName)
  | setPermissions (file : FileName)
  | write (file : FileName)
  | sync (file : FileName)
  | read (file : FileName)
  | metadata (file : FileName)
  | rename (source target : FileName)
  | remove (file : FileName)
  | openLock (file : FileName)
  | tryLock (file : FileName)
  | unlock (file : FileName)
  | sqliteOpen (name : Name)
  | sqliteWrite (name : Name)
  | sqliteCheckpoint (name : Name)
  | sqliteClose (name : Name)
  | sqliteOpenInMemory
  | masterKey
  | randomness
  | systemClock
  deriving DecidableEq, Repr

/-- What went wrong: its text, the counts of a busy checkpoint and which of the possible residues is
left. -/
structure Fault where
  message : String
  busy : Option (ℤ × ℤ × ℤ)
  residue : ℕ
  deriving DecidableEq, Repr

abbrev Faults := ℕ → Operation → Option Fault

/-- No operation fails. -/
def noFaults : Faults := fun _ _ => none

/-- What the program gets from outside. -/
structure Environment (τ : Type) where
  faults : Faults
  database : WriteAhead.Database τ
  crypto : Crypto
  masterKey : Bytes
  length_masterKey : masterKey.length = masterKeyLen
  salt : ℕ → Bytes
  length_salt : ∀ n, (salt n).length = v3SaltLen
  iv : ℕ → Bytes
  length_iv : ∀ n, (iv n).length = fernetIvLen
  now : ℕ → UInt64
  id : ℕ → ℕ
  id_injective : Function.Injective id
  display : FileName → String

/-- A lock that is held. -/
structure DbLock where
  path : FileName
  deriving DecidableEq, Repr

/-- A store that is open. -/
structure RegisteredTemp where
  tmpPath : Name
  active : Bool
  lock : Option DbLock
  tempLock : Option DbLock
  recoveryPaths : List FileName
  deriving DecidableEq, Repr

/-- A store; `connection` is the database that it is connected to, if it is not one in memory. -/
structure Store where
  sqlitePath : Name
  encryptedPath : Option Name
  dbLock : Option DbLock
  connection : Option Name
  deriving DecidableEq, Repr

/-- Files, locks and registrations. -/
structure State where
  files : FileName → Option Bytes
  locked : FileName → Bool
  encryptedTemps : Option RegisteredTemp
  stores : List Store
  /-- How many random values have been drawn. -/
  drawn : ℕ

namespace State

def put (s : State) (file : FileName) (content : Option Bytes) : State :=
  { s with files := Function.update s.files file content }

def setLocked (s : State) (file : FileName) (value : Bool) : State :=
  { s with locked := Function.update s.locked file value }

/-- A database file; the engine takes a file that is not there for an empty one. -/
def main (s : State) (name : Name) : Bytes := (s.files ⟨name, .main⟩).getD []

def wal (s : State) (name : Name) : Bytes := (s.files ⟨name, .wal⟩).getD []

@[simp] theorem files_put_self (s : State) (file : FileName) (content : Option Bytes) :
    (s.put file content).files file = content := by
  simp only [put, Function.update_self]

theorem files_put_of_ne (s : State) {file other : FileName} (content : Option Bytes)
    (h : other ≠ file) : (s.put file content).files other = s.files other := by
  simp only [put, Function.update_of_ne h]

@[simp] theorem locked_setLocked_self (s : State) (file : FileName) (value : Bool) :
    (s.setLocked file value).locked file = value := by
  simp only [setLocked, Function.update_self]

end State

variable {τ : Type} (e : Environment τ)

/-! ### The operating system -/

/-- An operation on files; one that fails leaves `broken`. -/
def system {α : Type} (o : Operation) (effect : State → Except IoError α × State)
    (broken : ℕ → State → State) : Prog State IoError α :=
  perform e.faults o effect fun fault s => (⟨.other, fault.message⟩, broken fault.residue s)

/-- An operation that changes nothing we keep. -/
def quiet (o : Operation) : Prog State IoError Unit :=
  system e o (fun s => (.ok (), s)) fun _ s => s

def createDirAll (dir : Dir) : Prog State IoError Unit := quiet e (.createDirAll dir)

/-- Make a private directory. -/
def ensurePrivateDir (dir : Dir) : Prog State IoError Unit := do
  createDirAll e dir
  quiet e (.setDirPermissions dir)

def ensureParentDir (dir : Dir) : Prog State IoError Unit := createDirAll e dir

/-- Sync a directory. -/
def syncDir (dir : Dir) : Prog State IoError Unit := do
  quiet e (.openDir dir)
  quiet e (.syncDir dir)

/-- `OpenOptions::create_new`. -/
def createNew (file : FileName) : Prog State IoError Unit :=
  system e (.create file)
    (fun s =>
      match s.files file with
      | some _ => (.error ⟨.alreadyExists, "File exists (os error 17)"⟩, s)
      | none => (.ok (), s.put file (some [])))
    fun _ s => s

/-- A write that fails leaves a first part of the bytes. -/
def writeAll (file : FileName) (bytes : Bytes) : Prog State IoError Unit :=
  system e (.write file) (fun s => (.ok (), s.put file (some bytes)))
    fun n s => s.put file (some (bytes.take n))

def noSuchFile : IoError := ⟨.notFound, "No such file or directory (os error 2)"⟩

/-- Read a file. -/
def readFile (file : FileName) : Prog State IoError Bytes :=
  system e (.read file)
    (fun s =>
      match s.files file with
      | some bytes => (.ok bytes, s)
      | none => (.error noSuchFile, s))
    fun _ s => s

/-- Rename a file. -/
def rename (source target : FileName) : Prog State IoError Unit :=
  system e (.rename source target)
    (fun s =>
      match s.files source with
      | some bytes => (.ok (), (s.put target (some bytes)).put source none)
      | none => (.error noSuchFile, s))
    fun _ s => s

/-- Remove a file. -/
def removeFile (file : FileName) : Prog State IoError Unit :=
  system e (.remove file)
    (fun s =>
      match s.files file with
      | some _ => (.ok (), s.put file none)
      | none => (.error noSuchFile, s))
    fun _ s => s

def removeIfExists (file : FileName) : Prog State IoError Unit := do
  match ← attempt (removeFile e file) with
  | .ok () => pure ()
  | .error error => if error.kind = .notFound then pure () else fail error

/-- `Path::exists`: an error counts as absence. -/
def pathExists {ε : Type} (file : FileName) : Prog State ε Bool := do
  match ← attempt (system e (.metadata file) (fun s => (.ok (s.files file).isSome, s))
    fun _ s => s) with
  | .ok found => pure found
  | .error _ => pure false

/-- The next random number. -/
def nextU64 {ε : Type} : Prog State ε ℕ := do
  let n ← inspect State.drawn
  update fun s => { s with drawn := s.drawn + 1 }
  return e.id n

/-! ### Locks -/

/-- `DbLock::lock` with one attempt. -/
def DbLock.acquire (name : Name) : Prog State LockError DbLock :=
  let path : FileName := ⟨name, .lock⟩
  mapError (LockError.acquire path) do
    system e (.openLock path)
      (fun s => (.ok (), s.put path (some ((s.files path).getD [])))) fun _ s => s
    system e (.tryLock path)
      (fun s =>
        if s.locked path then (.error ⟨.wouldBlock, "operation would block"⟩, s)
        else (.ok (), s.setLocked path true))
      fun _ s => s
    return ⟨path⟩

/-- Give a lock back. -/
def DbLock.close (lock : DbLock) : Prog State LockError Unit :=
  mapError (LockError.release lock.path)
    (system e (.unlock lock.path) (fun s => (.ok (), s.setLocked lock.path false)) fun _ s => s)

/-- The lock goes with its file handle, whether or not unlocking works. -/
def DbLock.drop {ε : Type} (lock : DbLock) : Prog State ε Unit :=
  update fun s => s.setLocked lock.path false

/-! ### SQLite -/

/-- `Store::open`: connect, set the pragmas and bring the schema up to date. -/
def Store.open (name : Name) : Prog State String Unit :=
  perform e.faults (.sqliteOpen name)
    (fun s =>
      match e.database.view (s.main name) (s.wal name) with
      | none => (.error "file is not a database", s)
      | some _ =>
          let (file, log) := e.database.prepare (s.main name) (s.wal name)
          (.ok (), ((s.put ⟨name, .main⟩ (some file)).put ⟨name, .wal⟩ (some log)).put
            ⟨name, .shm⟩ (some [])))
    fun fault s =>
      let (file, log) := e.database.spill fault.residue (s.main name) (s.wal name)
      (fault.message, (s.put ⟨name, .main⟩ (some file)).put ⟨name, .wal⟩ (some log))

/-- `PRAGMA wal_checkpoint(TRUNCATE)`, with all the columns of its result. -/
def checkpointWal (name : Name) : Prog State CheckpointError Unit :=
  perform e.faults (.sqliteCheckpoint name)
    (fun s => (.ok (), (s.put ⟨name, .main⟩
      (some (e.database.checkpoint (s.main name) (s.wal name)))).put ⟨name, .wal⟩ (some [])))
    fun fault s =>
      (match fault.busy with
        | some (busy, logFrames, checkpointed) => .busy busy logFrames checkpointed
        | none => .query fault.message,
        s.put ⟨name, .main⟩
          (some (e.database.copied fault.residue (s.main name) (s.wal name))))

/-- The last connection to a database closes: SQLite tries a checkpoint and removes the sidecars,
without a word if it cannot. -/
def closeConnection {ε : Type} (name : Name) : Prog State ε Unit := do
  let _ ← attempt (perform e.faults (.sqliteClose name)
    (fun s => ((.ok () : Except String Unit), ((s.put ⟨name, .main⟩
      (some (e.database.checkpoint (s.main name) (s.wal name)))).put ⟨name, .wal⟩ none).put
        ⟨name, .shm⟩ none))
    fun fault s => (fault.message, s.put ⟨name, .main⟩
      (some (e.database.copied fault.residue (s.main name) (s.wal name)))))
  return ()

def closeOptional {ε : Type} : Option Name → Prog State ε Unit
  | none => pure ()
  | some name => closeConnection e name

/-- A transaction that a caller commits. -/
def commitTransaction (name : Name) (tx : τ) : Prog State String Unit :=
  perform e.faults (.sqliteWrite name)
    (fun s =>
      let (file, log) := e.database.commit (s.main name) (s.wal name) tx
      (.ok (), (s.put ⟨name, .main⟩ (some file)).put ⟨name, .wal⟩ (some log)))
    fun fault s =>
      let (file, log) := e.database.spill fault.residue (s.main name) (s.wal name)
      (fault.message, (s.put ⟨name, .main⟩ (some file)).put ⟨name, .wal⟩ (some log))

/-! ### Keys and envelopes -/

/-- The master key of now. -/
def currentMasterKey : Prog State EncryptedStoreError Bytes :=
  mapError (fun _ => .masterKeyUnavailable)
    (system e .masterKey (fun s => (.ok e.masterKey, s)) fun _ s => s)

/-- `SysRng::try_fill_bytes`. -/
def fillBytes (bytes : ℕ → Bytes) : Prog State SealError Bytes :=
  mapError (fun _ => .randomnessUnavailable)
    (system e .randomness (fun s => (.ok (bytes s.drawn), { s with drawn := s.drawn + 1 }))
      fun _ s => s)

/-- Encrypt with fresh values. -/
def encryptV3 (plaintext masterKey : Bytes) : Prog State SealError Bytes := do
  ofExcept ((validateMasterKey masterKey).mapError .encryption)
  let salt ← fillBytes e e.salt
  let iv ← fillBytes e e.iv
  let timestamp ← mapError (fun _ => SealError.clockUnavailable)
    (system e .systemClock (fun s => (.ok (e.now s.drawn), s)) fun _ s => s)
  ofExcept ((encryptV3WithMaterial e.crypto plaintext masterKey salt iv timestamp).mapError
    .encryption)

def isEncrypted (raw : Bytes) : Bool := (detectVersion raw).isSome

/-! ### Texts -/

def hexByte (byte : UInt8) : String :=
  String.ofList [Nat.digitChar (byte.toNat / 16), Nat.digitChar (byte.toNat % 16)]

def encryptionText : EncryptionError → String
  | .invalidMasterKeyLength actual => s!"master key must be 32 bytes (got {actual})"
  | .unsupportedEnvelope => "eventstore: unrecognized encryption header"
  | .truncatedEnvelope version => s!"eventstore: encrypted V{version} envelope is truncated"
  | .truncatedToken => "eventstore: fernet token invalid, tampered, or unsupported format"
  | .invalidBase64 => "invalid URL-safe base64 Fernet token"
  | .unsupportedFernetVersion version => "unsupported Fernet version 0x" ++ hexByte version
  | .authenticationFailed => "Fernet authentication failed"
  | .invalidCiphertextLength => "invalid Fernet ciphertext block length"
  | .invalidPadding => "invalid Fernet PKCS7 padding"
  | .legacyTokenInvalid => "eventstore: fernet token invalid, tampered, or unsupported format"

def SealError.text : SealError → String
  | .encryption error => encryptionText error
  | .randomnessUnavailable => "OS randomness unavailable"
  | .clockUnavailable => "system clock unavailable"

def CheckpointError.text : CheckpointError → String
  | .busy row logFrames checkpointed =>
      s!"eventstore: WAL checkpoint busy (busy={row} log_frames={logFrames} " ++
        s!"checkpointed={checkpointed})"
  | .query error => s!"eventstore: WAL checkpoint: {error}"

def LockError.text : LockError → String
  | .acquire path source =>
      "eventstore: cannot acquire DB lock " ++ e.display path ++ ": " ++ source.message
  | .release path source =>
      "eventstore: lock release failed for " ++ e.display path ++ ": " ++ source.message

def EncryptedStoreError.text : EncryptedStoreError → String
  | .lock error => error.text e
  | .io error => "eventstore I/O error: " ++ error.message
  | .sqlite error => s!"eventstore SQLite error: {error}"
  | .encryption error => "eventstore encryption error: " ++ error.text
  | .checkpoint error => error.text
  | .masterKeyUnavailable =>
      "eventstore: encryption requested: identity master key unavailable"
  | .directorySyncFailed path (some recovery) source =>
      "eventstore: directory sync failed for " ++ e.display path ++ " (recovery copy at " ++
        e.display recovery ++ "): " ++ source.message
  | .directorySyncFailed path none source =>
      "eventstore: directory sync failed for " ++ e.display path ++ ": " ++ source.message
  | .conversionFailed message (some recovery) =>
      "eventstore: conversion failed (recovery copy at " ++ e.display recovery ++ "): " ++ message
  | .conversionFailed message none => s!"eventstore: conversion failed: {message}"

/-! ### The registry -/

/-- Register an open store. -/
def registerTemp {ε : Type} (tmpPath : Name) (tempLock : DbLock) : Prog State ε Unit :=
  update fun s =>
    { s with
      encryptedTemps := some { tmpPath, active := true, lock := none, tempLock := some tempLock,
                               recoveryPaths := [] } }

/-- Where the error left a copy. -/
def recoveryPath : EncryptedStoreError → Option FileName
  | .directorySyncFailed _ path _ => path
  | .conversionFailed _ path => path
  | _ => none

/-- The registration with the recovery path of an error. -/
def RegisteredTemp.remember (registration : RegisteredTemp) (error : EncryptedStoreError) :
    RegisteredTemp :=
  match recoveryPath error with
  | some path =>
      if path ∈ registration.recoveryPaths then registration
      else { registration with recoveryPaths := registration.recoveryPaths ++ [path] }
  | none => registration

/-- Note where a copy is. -/
def rememberRecoveryPath {ε : Type} (error : EncryptedStoreError) : Prog State ε Unit :=
  update fun s => { s with encryptedTemps := s.encryptedTemps.map (·.remember error) }

/-- The lock of the `n`-th store moves into the registration, which is no longer active. -/
def State.retainFailedClose (s : State) (n : ℕ) (error : EncryptedStoreError) : State :=
  match s.stores[n]? with
  | none => s
  | some store =>
      match store.dbLock with
      | none => s
      | some lock =>
          let registration := s.encryptedTemps.getD
            { tmpPath := store.sqlitePath, active := false, lock := none, tempLock := none,
              recoveryPaths := [] }
          { s with
            stores := s.stores.set n { store with dbLock := none }
            encryptedTemps :=
              some ({ registration with active := false, lock := some lock }.remember error) }

/-- Keep a store that did not close. -/
def retainFailedClose {ε : Type} (n : ℕ) (error : EncryptedStoreError) : Prog State ε Unit :=
  update (·.retainFailedClose n error)

/-- Only an encrypted store has a registration. -/
def retainEncrypted {ε : Type} (n : ℕ) (store : Store) (error : EncryptedStoreError) :
    Prog State ε Unit :=
  match store.encryptedPath with
  | none => pure ()
  | some _ => retainFailedClose n error

def cleanupTempLockAfterMain {ε : Type} (path : Name) : Option DbLock → Prog State ε Unit
  | none => pure ()
  | some lock => do
      match ← attempt (lock.close e) with
      | .error _ => pure ()
      | .ok () => do
          let _ ← attempt (removeIfExists e ⟨path, .lock⟩)
          return ()

def dropOptional {ε : Type} : Option DbLock → Prog State ε Unit
  | none => pure ()
  | some lock => lock.drop

/-- Take the registration out. -/
def unregisterTemp {ε : Type} : Prog State ε Unit := do
  match ← inspect State.encryptedTemps with
  | none => pure ()
  | some registration => do
      update fun s => { s with encryptedTemps := none }
      cleanupTempLockAfterMain e registration.tmpPath registration.tempLock
      dropOptional registration.tempLock
      dropOptional registration.lock

/-! ### Cleaning up -/

/-- Remove the log files. -/
def removeWalSiblings (name : Name) : Prog State IoError Unit := do
  removeIfExists e ⟨name, .wal⟩
  removeIfExists e ⟨name, .shm⟩

/-- Remove what was left. -/
def cleanupRecoveryPaths : List FileName → Prog State IoError Unit
  | [] => pure ()
  | path :: rest => do
      removeIfExists e path
      cleanupRecoveryPaths rest

def cleanupUnregisteredRecovery (error : EncryptedStoreError) :
    Prog State EncryptedStoreError Unit :=
  match recoveryPath error with
  | none => fail error
  | some path => do
      let _ ← attempt (removeIfExists e path)
      fail error

/-- All files are tried; the first error is reported. -/
def cleanupCandidates : List FileName → Prog State IoError Unit
  | [] => pure ()
  | file :: rest => do
      let first ← attempt (removeIfExists e file)
      let others ← attempt (cleanupCandidates rest)
      match first with
      | .error error => fail ⟨error.kind, e.display file ++ ": " ++ error.message⟩
      | .ok () => ofExcept others

def cleanupInitializer (name : Name) : Prog State IoError Unit :=
  cleanupCandidates e [⟨name, .shm⟩, ⟨name, .wal⟩, ⟨name, .main⟩]

/-- Remove a plain file with its lock. -/
def cleanupPlainTempWithLock (name : Name) (tempLock : Option DbLock) :
    Prog State IoError Unit := do
  let siblings ← attempt (removeWalSiblings e name)
  match ← attempt (removeIfExists e ⟨name, .main⟩) with
  | .ok () => do
      cleanupTempLockAfterMain e name tempLock
      dropOptional tempLock
      ofExcept siblings
  | .error error => do
      dropOptional tempLock
      fail error

def cleanupPlainTemp (name : Name) : Prog State IoError Unit :=
  cleanupPlainTempWithLock e name none

/-- A failed step, with the outcome of cleaning up after it. -/
def withCleanup (step : String) (error : EncryptedStoreError) (text : String)
    (cleanup : Prog State IoError Unit) {α : Type} : Prog State EncryptedStoreError α := do
  match ← attempt cleanup with
  | .ok () => fail error
  | .error cleanup =>
      fail (.io ⟨.other, step ++ ": " ++ text ++ "; cleanup: " ++ cleanup.message⟩)

/-! ### Replacing the canonical file -/

def writeReplacement (path : FileName) (ciphertext : Bytes) : Prog State IoError Unit := do
  createNew e path
  quiet e (.setPermissions path)
  writeAll e path ciphertext
  quiet e (.sync path)

def writeRecovery (path : FileName) (ciphertext : Bytes) : Prog State IoError Unit := do
  createNew e path
  writeAll e path ciphertext
  quiet e (.sync path)

/-- The renaming failed: the new contents stay under a recovery name. -/
def keepReplacement (writePath recPath : FileName) (error : IoError) :
    Prog State EncryptedStoreError Unit := do
  match ← attempt (rename e writePath recPath) with
  | .ok () => fail (.conversionFailed ("rename failed: " ++ error.message) (some recPath))
  | .error recoveryError =>
      fail (.conversionFailed ("rename failed: " ++ error.message ++
        "; recovery rename failed: " ++ recoveryError.message) (some writePath))

/-- The directory could not be synced: a copy of the new contents is left beside. -/
def leaveRecovery (target recPath : FileName) (ciphertext : Bytes) (error : IoError) :
    Prog State EncryptedStoreError Unit := do
  match ← attempt (writeRecovery e recPath ciphertext) with
  | .ok () => fail (.directorySyncFailed target (some recPath) error)
  | .error recoveryError => do
      let message := "directory sync failed: " ++ error.message ++ "; recovery write failed: " ++
        recoveryError.message
      match ← attempt (removeIfExists e recPath) with
      | .error cleanup =>
          fail (.directorySyncFailed target (some recPath)
            ⟨.other, message ++ "; cleanup failed: " ++ cleanup.message⟩)
      | .ok () =>
          fail (.directorySyncFailed target none ⟨.other, message ++ "; recovery removed"⟩)

/-- The write of the replacement failed: it is removed, or remembered. -/
def discardReplacement (writePath : FileName) (error : IoError) :
    Prog State EncryptedStoreError Unit := do
  match ← attempt (removeIfExists e writePath) with
  | .ok () => fail (.conversionFailed ("write replacement failed: " ++ error.message) none)
  | .error cleanup =>
      fail (.conversionFailed ("write replacement failed: " ++ error.message ++
        "; cleanup failed: " ++ cleanup.message) (some writePath))

/-- Replace a file, with a copy kept. -/
def atomicTransitionWithRecovery (target : FileName) (ciphertext : Bytes) :
    Prog State EncryptedStoreError Unit := do
  mapError .io (ensureParentDir e .parent)
  let id ← nextU64 e
  let writePath : FileName := ⟨.writing id, .main⟩
  let recPath : FileName := ⟨.recovery id, .main⟩
  match ← attempt (writeReplacement e writePath ciphertext) with
  | .error error => discardReplacement e writePath error
  | .ok () => do
      match ← attempt (rename e writePath target) with
      | .error error => keepReplacement e writePath recPath error
      | .ok () => do
          match ← attempt (syncDir e .parent) with
          | .error error => leaveRecovery e target recPath ciphertext error
          | .ok () => pure ()

def canonicalFile : FileName := ⟨.canonical, .main⟩

def canonicalLock : FileName := ⟨.canonical, .lock⟩

/-- A transition whose recovery copy nobody will look for. -/
def transitionUnregistered (ciphertext : Bytes) : Prog State EncryptedStoreError Unit := do
  match ← attempt (atomicTransitionWithRecovery e canonicalFile ciphertext) with
  | .ok () => pure ()
  | .error error => cleanupUnregisteredRecovery e error

/-! ### Opening -/

/-- A read that takes a missing file for an empty one. -/
def readOrEmpty (file : FileName) : Prog State EncryptedStoreError Bytes := do
  match ← attempt (readFile e file) with
  | .ok bytes => pure bytes
  | .error error => if error.kind = .notFound then pure [] else fail (.io error)

/-- Encrypt a plain store. -/
def encryptExisting : Prog State EncryptedStoreError Unit := do
  let raw ← readOrEmpty e canonicalFile
  if raw = [] ∨ isEncrypted raw then pure ()
  else do
    let masterKey ← currentMasterKey e
    let ciphertext ← mapError .encryption (encryptV3 e raw masterKey)
    transitionUnregistered e ciphertext

/-- `Store::open` and a checkpoint; the store is dropped. -/
def initializeDatabase (name : Name) : Prog State EncryptedStoreError Unit := do
  match ← attempt (Store.open e name) with
  | .error error =>
      withCleanup "initialize" (.sqlite error) error (cleanupInitializer e name)
  | .ok () => do
      match ← attempt (checkpointWal e name) with
      | .error error => do
          closeConnection e name
          withCleanup "initialize checkpoint" (.checkpoint error) error.text
            (cleanupInitializer e name)
      | .ok () => closeConnection e name

/-- A new database is made away from the canonical path and published encrypted. -/
def publishInitializer (masterKey : Bytes) : Prog State EncryptedStoreError Unit := do
  let name : Name := .initializer (← nextU64 e)
  mapError .io (createNew e ⟨name, .main⟩)
  initializeDatabase e name
  match ← attempt (readFile e ⟨name, .main⟩) with
  | .error error =>
      withCleanup "read initializer" (.io error) error.message (cleanupInitializer e name)
  | .ok bytes => do
      match ← attempt (encryptV3 e bytes masterKey) with
      | .error error =>
          withCleanup "encrypt initializer" (.encryption error) error.text
            (cleanupInitializer e name)
      | .ok ciphertext => do
          match ← attempt (atomicTransitionWithRecovery e canonicalFile ciphertext) with
          | .ok () => mapError .io (cleanupInitializer e name)
          | .error error => do
              let cleanup ← attempt (cleanupInitializer e name)
              let _ ← attempt (cleanupUnregisteredRecovery e error)
              withCleanup "publish initializer" error (error.text e) (ofExcept cleanup)

/-- An existing plain database is converted. -/
def convertPlain : Prog State EncryptedStoreError Unit := do
  mapError .sqlite (Store.open e .canonical)
  match ← attempt (checkpointWal e .canonical) with
  | .error error => do
      closeConnection e .canonical
      fail (.checkpoint error)
  | .ok () => do
      closeConnection e .canonical
      encryptExisting e

def isLegacy (ciphertext : Bytes) : Bool :=
  isEncrypted ciphertext &&
    (v1Header.isPrefixOf ciphertext || v2Header.isPrefixOf ciphertext ||
      isLegacyGoEnvelope ciphertext)

/-- The plaintext of a legacy envelope, by its header. -/
def decryptLegacy (ciphertext masterKey : Bytes) : Except EncryptionError Bytes :=
  if v1Header.isPrefixOf ciphertext then decryptV1 e.crypto ciphertext masterKey
  else if v2Header.isPrefixOf ciphertext then decryptV2 e.crypto ciphertext masterKey
  else decryptV3 e.crypto ciphertext masterKey

/-- The canonical envelope, of the current version and without a legacy token. -/
def migrateEnvelope (masterKey : Bytes) : Prog State EncryptedStoreError Bytes := do
  let ciphertext ← mapError .io (readFile e canonicalFile)
  if isLegacy ciphertext then do
    let plaintext ← ofExcept
      ((decryptLegacy e ciphertext masterKey).mapError (.encryption ∘ .encryption))
    let migrated ← mapError .encryption (encryptV3 e plaintext masterKey)
    transitionUnregistered e migrated
    return migrated
  else pure ciphertext

/-- The canonical file holds an encrypted database. -/
def prepareCanonical (masterKey : Bytes) : Prog State EncryptedStoreError Unit := do
  let raw ← readOrEmpty e canonicalFile
  if raw = [] then publishInitializer e masterKey
  else if isEncrypted raw then pure ()
  else convertPlain e

def writeTemp (file : FileName) (plaintext : Bytes) : Prog State IoError Unit := do
  writeAll e file plaintext
  quiet e (.sync file)

/-- The decrypted database is written, locked and opened. -/
def openTemp (name : Name) (plaintext : Bytes) : Prog State EncryptedStoreError DbLock := do
  mapError .io (createNew e ⟨name, .main⟩)
  match ← attempt (writeTemp e ⟨name, .main⟩ plaintext) with
  | .error error =>
      withCleanup "write decrypted temp" (.io error) error.message (cleanupPlainTemp e name)
  | .ok () => do
      match ← attempt (DbLock.acquire e name) with
      | .error error =>
          withCleanup "lock decrypted temp" (.io ⟨.other, "lock decrypted temp: " ++ error.text e⟩)
            (error.text e) (cleanupPlainTemp e name)
      | .ok tempLock => do
          match ← attempt (Store.open e name) with
          | .error error =>
              withCleanup "open decrypted temp" (.sqlite error) error
                (cleanupPlainTempWithLock e name (some tempLock))
          | .ok () => pure tempLock

/-- What `openEncrypted` does under the lock of the database. -/
def openLocked (lock : DbLock) : Prog State EncryptedStoreError Unit := do
  let masterKey ← currentMasterKey e
  prepareCanonical e masterKey
  let ciphertext ← migrateEnvelope e masterKey
  let plaintext ← ofExcept
    ((decryptAny e.crypto ciphertext masterKey).mapError (.encryption ∘ .encryption))
  let name : Name := .decrypted (← nextU64 e)
  let tempLock ← openTemp e name plaintext
  update fun s => { s with stores := s.stores ++
    [{ sqlitePath := name, encryptedPath := some .canonical, dbLock := some lock,
       connection := some name }] }
  registerTemp name tempLock

/-- Take the lock and open the store; a failure gives the lock back. -/
def openEncrypted : Prog State EncryptedStoreError Unit := do
  mapError .io (ensureParentDir e .parent)
  mapError .io (ensurePrivateDir e .temp)
  let lock ← mapError .lock (DbLock.acquire e .canonical)
  match ← attempt (openLocked e lock) with
  | .ok () => pure ()
  | .error error => do
      lock.drop
      fail error

/-! ### Closing -/

/-- The connection of the `n`-th store is replaced by one in memory and closed. -/
def replaceConnection (n : ℕ) (store : Store) : Prog State EncryptedStoreError Unit := do
  perform e.faults .sqliteOpenInMemory
    (fun s => (.ok (), { s with stores := s.stores.set n { store with connection := none } }))
    fun fault s => (.sqlite fault.message, s)
  closeOptional e store.connection

def registeredRecoveryPaths {ε : Type} : Prog State ε (List FileName) :=
  inspect fun s => (s.encryptedTemps.map RegisteredTemp.recoveryPaths).getD []

/-- Encrypt the database into its envelope and remove the plaintext. -/
def closeStoreInner (n : ℕ) (store : Store) : Prog State EncryptedStoreError Unit := do
  mapError .checkpoint (checkpointWal e store.sqlitePath)
  match store.encryptedPath with
  | none => pure ()
  | some encPath => do
      let masterKey ← currentMasterKey e
      replaceConnection e n store
      let plain ← mapError .io (readFile e ⟨store.sqlitePath, .main⟩)
      let ciphertext ← mapError .encryption (encryptV3 e plain masterKey)
      atomicTransitionWithRecovery e ⟨encPath, .main⟩ ciphertext
      mapError .io (cleanupRecoveryPaths e (← registeredRecoveryPaths))
      mapError .io (removeWalSiblings e encPath)
      mapError .io (cleanupPlainTemp e store.sqlitePath)
      unregisterTemp e

/-- The `n`-th store goes out of scope: its connection is closed, then its lock released. -/
def dropStore {ε : Type} (n : ℕ) : Prog State ε Unit := do
  match ← inspect fun s => s.stores[n]? with
  | none => pure ()
  | some store => do
      closeOptional e store.connection
      dropOptional store.dbLock
      update fun s => { s with stores := s.stores.eraseIdx n }

/-- Close a store; what fails is kept for `finaliseAll`. -/
def closeStore (n : ℕ) (store : Store) : Prog State EncryptedStoreError Unit := do
  match ← attempt (closeStoreInner e n store) with
  | .ok () => dropStore e n
  | .error error => do
      retainEncrypted n store error
      dropStore e n
      fail error

/-! ### Finalising -/

/-- `Store::open` and a checkpoint, whose errors are SQLite's. -/
def checkpointTemp (name : Name) : Prog State String Unit := do
  Store.open e name
  match ← attempt (checkpointWal e name) with
  | .ok () => closeConnection e name
  | .error error => do
      closeConnection e name
      fail error.text

/-- A transition whose recovery copy is remembered. -/
def transitionRegistered (ciphertext : Bytes) : Prog State EncryptedStoreError Unit := do
  match ← attempt (atomicTransitionWithRecovery e canonicalFile ciphertext) with
  | .ok () => pure ()
  | .error error => do
      rememberRecoveryPath error
      fail error

/-- One registration of `finaliseAll`. -/
def finaliseOne (registration : RegisteredTemp) : Prog State EncryptedStoreError Unit := do
  let masterKey ← currentMasterKey e
  let found ← pathExists e ⟨registration.tmpPath, .main⟩
  if found then do
    mapError .sqlite (checkpointTemp e registration.tmpPath)
    let plain ← mapError .io (readFile e ⟨registration.tmpPath, .main⟩)
    let ciphertext ← mapError .encryption (encryptV3 e plain masterKey)
    transitionRegistered e ciphertext
    mapError .io (cleanupRecoveryPaths e registration.recoveryPaths)
    mapError .io (removeWalSiblings e .canonical)
    mapError .io (cleanupPlainTemp e registration.tmpPath)
    unregisterTemp e
  else
    fail (.io ⟨.notFound, "registered encrypted temp missing: " ++
      e.display ⟨registration.tmpPath, .main⟩⟩)

/-- `finaliseAll`, for the path of this model. -/
def finaliseAll : Prog State (List EncryptedStoreError) Unit := do
  match ← inspect State.encryptedTemps with
  | none => pure ()
  | some registration =>
      if registration.active then
        fail [.io ⟨.wouldBlock, "active encrypted store not finalized: " ++
          e.display canonicalFile⟩]
      else mapError (fun error => [error]) (finaliseOne e registration)

/-! ### Runs -/

/-- A call of a user; stores are named by their place in `State.stores`. -/
inductive Call (τ : Type)
  | openEncrypted
  | commit (n : ℕ) (tx : τ)
  | closeStore (n : ℕ)
  | finaliseAll

/-- Why a call fails. -/
inductive CallError
  | store (error : EncryptedStoreError)
  | sqlite (error : String)
  | finalise (errors : List EncryptedStoreError)
  | noStore

/-- The `n`-th store. -/
def withStore (n : ℕ) (f : Store → Prog State CallError Unit) : Prog State CallError Unit := do
  match ← inspect fun s => s.stores[n]? with
  | none => fail .noStore
  | some store => f store

/-- One call. -/
def Call.run : Call τ → Prog State CallError Unit
  | .openEncrypted => mapError .store (EncryptedStore.openEncrypted e)
  | .commit n tx => withStore n fun store =>
      match store.connection with
      | none => fail .noStore
      | some name => mapError .sqlite (commitTransaction e name tx)
  | .closeStore n => withStore n fun store => mapError .store (EncryptedStore.closeStore e n store)
  | .finaliseAll => mapError .finalise (EncryptedStore.finaliseAll e)

/-- The environment with other faults. -/
def Environment.under (faults : Faults) : Environment τ := { e with faults }

/-- A run: each call with its faults. -/
def run : List (Faults × Call τ) → World State → World State
  | [], w => w
  | (faults, call) :: rest, w => run rest (call.run (e.under faults) w).2

end EraseMe.EncryptedStore
