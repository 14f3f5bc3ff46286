import EraseMe.Library.Faulty
import EraseMe.Library.FileTree
import EraseMe.Library.Paths
import EraseMe.Registry

/-!
# `registry::sync`: downloading a registry

`syncWithTransport` unpacks a downloaded archive into a staging directory beside the destination,
loads the result and puts it in the place of the destination, whose earlier tree waits in a backup
directory until then.

* A path is the list of its names and a handle of a directory is the path that it was opened at.
* Every operation on the file system may fail, also halfway (`Fault`), but a rename happens or does
  not.  Modes are not kept: setting one only fails.
* Decompression and the reader of the archive are one function from the bytes of the download to
  what the entries give and what comes after them (`Archive`).
-/

namespace EraseMe.Registry.Sync

open Faulty Faulty.Prog FileTree

abbrev Bytes := List UInt8

abbrev Tree := FileTree.Tree OsString

/-! ### Limits -/

def maxCompressedBytes : ℕ := 64 * 2 ^ 20

def maxExpandedBytes : ℕ := 64 * 2 ^ 20

def maxFileBytes : ℕ := 2 ^ 20

def maxFiles : ℕ := 4096

def maxArchiveEntries : ℕ := 8192

def maxPathBytes : ℕ := 4096

def maxTarPaddingBytes : ℕ := 20 * 512

/-- The timeout of a request in seconds. -/
def requestTimeout : ℕ := 60

/-! ### What may fail -/

/-- What the host is asked to do. -/
inductive Operation
  | createDirAll (path : Path)
  | createTempDir (path : Path)
  | setMode (path : Path)
  | openDir (path : Path)
  | cloneDir (path : Path)
  | createDir (path : Path)
  | openFile (path : Path)
  | copy (path : Path)
  | flush (path : Path)
  | setFileMode (path : Path)
  | load (path : Path)
  | metadata (path : Path)
  | rename (source target : Path)
  | removeDirAll (path : Path)
  deriving DecidableEq, Repr

/-- What went wrong: its text, how many directories or bytes were made before it, and what a removal
has left. -/
structure Fault where
  message : String
  written : ℕ
  left : Path → Bool

/-! ### What comes from outside -/

/-- The authority of a URI. -/
structure Authority where
  text : String
  host : String
  /-- The host, without brackets, is the address of a loopback interface. -/
  isLoopback : Bool
  deriving DecidableEq, Repr

/-- A URI. -/
structure Uri where
  scheme : Option String
  authority : Option Authority
  deriving DecidableEq, Repr

/-- A response: `body n` is what the `n`-th reading of the body gives, nothing at its end. -/
structure SyncResponse where
  status : UInt16
  body : ℕ → Except IoError Bytes

/-- The kinds of entries. -/
inductive EntryType
  | directory
  | file
  | other
  deriving DecidableEq, Repr

/-- An entry of an archive.  Its reader gives `data` and then ends, or fails. -/
structure Entry where
  pathBytes : Bytes
  entryType : EntryType
  size : ℕ
  data : Bytes
  failure : Option IoError
  deriving DecidableEq, Repr

/-- What a download decodes to: the entries, the readings behind the end of the archive, and the
compressed bytes that are left over. -/
structure Archive where
  entries : Except IoError (List (Except IoError Entry))
  padding : List (Except IoError Bytes)
  trailing : Except IoError Bytes

/-- What a run depends on. -/
structure Environment where
  faults : ℕ → Operation → Option Fault
  parseUri : String → Option Uri
  transport : String → ℕ → Except RegistryError SyncResponse
  archive : Bytes → Archive
  /-- `load_from_dir` on a tree. -/
  loadFromDir : Tree → Except RegistryError Unit
  /-- The letters behind a prefix in the name of a temporary directory. -/
  random : String → OsString

variable (e : Environment)

/-! ### The file system -/

def syncError (message : String) : RegistryError := .validation "sync" message

/-- An operation on the file system; `halfway` is what a failure leaves. -/
def system {α : Type} (o : Operation) (effect : Tree → Except IoError α × Tree)
    (halfway : Fault → Tree → Tree) : Prog Tree IoError α :=
  perform e.faults o effect fun fault t => (.other fault.message, halfway fault t)

/-- An operation that changes nothing. -/
def quiet (o : Operation) : Prog Tree IoError Unit := system e o (fun t => (.ok (), t)) fun _ t => t

/-- Something other than a directory is on the way. -/
def obstructed (t : Tree) (path : Path) : Bool :=
  path.inits.any fun p => t p ≠ none ∧ t p ≠ some .directory

/-- Make all directories. -/
def createDirAll (path : Path) : Prog Tree IoError Unit :=
  system e (.createDirAll path)
    (fun t =>
      if obstructed t path then (.error .notADirectory, t) else (.ok (), makeDirs t path))
    fun fault t => makeDirs t (path.take fault.written)

/-- The name that a temporary directory gets. -/
def tempName (pre : String) : OsString := osString pre ++ e.random pre

/-- `tempdir_in`: a new directory, with nothing in it. -/
def tempdirIn (parent : Path) (pre : String) : Prog Tree IoError Path :=
  let path := parent ++ [tempName e pre]
  system e (.createTempDir path)
    (fun t =>
      match t parent, t path with
      | some .directory, none => (.ok path, graft t path (leaf .directory))
      | some .directory, some _ => (.error .alreadyExists, t)
      | some _, _ => (.error .notADirectory, t)
      | none, _ => (.error .notFound, t))
    fun _ t => t

/-- Remove a tree. -/
def removeAllPath (path : Path) : Prog Tree IoError Unit :=
  system e (.removeDirAll path)
    (fun t =>
      match t path with
      | some .directory => (.ok (), graft t path absent)
      | some _ => (.error .notADirectory, t)
      | none => (.error .notFound, t))
    fun fault t => graft t path (prune (sub t path) fault.left)

/-- A temporary directory goes when its scope ends; an error is ignored. -/
def dropTempDir {ε : Type} (path : Path) : Prog Tree ε Unit := do
  let _ ← attempt (removeAllPath e path)
  return ()

/-- Nothing is renamed onto something else here. -/
def renamed (source target : Path) (t : Tree) : Except IoError Unit × Tree :=
  if t source = none then (.error .notFound, t)
  else if t target ≠ none then (.error .alreadyExists, t)
  else if source <+: target then (.error (.other "Invalid argument (os error 22)"), t)
  else (.ok (), move t source target)

/-- Rename a tree. -/
def renamePath (source target : Path) : Prog Tree IoError Unit :=
  system e (.rename source target) (renamed source target) fun _ t => t

/-- `symlink_metadata`: whether something is there. -/
def symlinkMetadata (path : Path) : Prog Tree IoError Bool :=
  system e (.metadata path) (fun t => (.ok (t path).isSome, t)) fun _ t => t

/-- A directory below an open one, by one name. -/
def openDirNofollow (dir : Path) (name : OsString) : Prog Tree IoError Path :=
  let path := dir ++ [name]
  system e (.openDir path)
    (fun t =>
      match t path with
      | some .directory => (.ok path, t)
      | some _ => (.error .notADirectory, t)
      | none => (.error .notFound, t))
    fun _ t => t

/-- Make a directory. -/
def createDir (dir : Path) (name : OsString) : Prog Tree IoError Unit :=
  let path := dir ++ [name]
  system e (.createDir path)
    (fun t =>
      match t path with
      | none => (.ok (), put t path .directory)
      | some _ => (.error .alreadyExists, t))
    fun _ t => t

/-- `open_with`, for a file that is not there yet. -/
def createNewFile (dir : Path) (name : OsString) : Prog Tree IoError Path :=
  let path := dir ++ [name]
  system e (.openFile path)
    (fun t =>
      match t path with
      | none => (.ok path, put t path (.file []))
      | some _ => (.error .alreadyExists, t))
    fun _ t => t

/-- `io::copy` of at most `size` bytes of an entry, and how many it copied. -/
def copy (entry : Entry) (file : Path) (size : ℕ) : Prog Tree IoError ℕ :=
  let bytes := entry.data.take size
  system e (.copy file)
    (fun t =>
      (match entry.failure with
        | some source => if entry.data.length < size then .error source else .ok bytes.length
        | none => .ok bytes.length,
        put t file (.file bytes)))
    fun fault t => put t file (.file (bytes.take fault.written))

/-! ### Downloading -/

/-- Only HTTPS, or loopback. -/
def validateUrl (raw : String) : Except RegistryError Unit :=
  match e.parseUri raw with
  | none => .error (syncError "invalid URL")
  | some uri =>
      match uri.scheme, uri.authority with
      | some scheme, some authority =>
          if '@' ∈ authority.text.toList then .error (syncError "URL userinfo is not allowed")
          else if authority.host = "" then .error (syncError "invalid URL")
          else if scheme = "https" then .ok ()
          else if scheme = "http" ∧ (authority.host = "localhost" ∨ authority.isLoopback) then
            .ok ()
          else .error (syncError "HTTPS is required (except loopback test URLs)")
      | _, _ => .error (syncError "invalid URL")

/-- `read_bounded`, with what has been read and the number of readings so far. -/
def readBounded (body : ℕ → Except IoError Bytes) (limit : ℕ) (bytes : Bytes) (n : ℕ) :
    Except RegistryError Bytes :=
  match body n with
  | .error source => .error (.io [osString "sync"] source)
  | .ok [] => .ok bytes
  | .ok (b :: rest) =>
      let count := (b :: rest).length
      if _h : limit - min count limit < bytes.length ∨ limit < bytes.length + count then
        .error (syncError s!"compressed body exceeds {limit} bytes")
      else readBounded body limit (bytes ++ b :: rest) (n + 1)
termination_by limit - bytes.length
decreasing_by
  simp only [count, List.length_cons, List.length_append] at *
  omega

/-! ### Paths of an archive -/

/-- A path of Windows. -/
def windowsAbsolute (value : Bytes) : Bool :=
  match value with
  | letter :: colon :: _ =>
      colon = 0x3A ∧ (0x41 ≤ letter ∧ letter ≤ 0x5A ∨ 0x61 ≤ letter ∧ letter ≤ 0x7A)
  | _ => false

/-- The parts of a path one after the other; empty ones are skipped. -/
def pushComponents (path : Paths.Path) : List (List Char) → Option Paths.Path
  | [] => some path
  | part :: parts =>
      if part = [] then pushComponents path parts
      else if part = ['.'] ∨ part = ['.', '.'] then none
      else pushComponents (Paths.join path part) parts

/-- A path that stays inside. -/
def safeArchivePath (raw : Bytes) : Except RegistryError Paths.Path :=
  if raw = [] ∨ maxPathBytes < raw.length then .error (syncError "invalid archive path")
  else
    match Utf8.decode raw with
    | none => .error (syncError "archive path is not UTF-8")
    | some value =>
        if '\x00' ∈ value ∨ '\\' ∈ value ∨ value.head? = some '/' ∨ windowsAbsolute raw then
          .error (syncError "absolute or invalid archive path")
        else
          match pushComponents [] (Text.splitOn '/' value) with
          | none => .error (syncError "traversal archive path")
          | some path =>
              if .parentDir ∈ Paths.components path ∨ .rootDir ∈ Paths.components path then
                .error (syncError "unsafe archive path")
              else if path = [] then .error (syncError "empty archive path")
              else .ok path

/-- The names of a relative path. -/
def names (path : List Paths.Component) : Path :=
  path.map fun c => osString (String.ofList c.text)

/-! ### Extraction -/

/-- The loop of `create_relative_dir_all` over the components of a path. -/
def createRelativeDirs (path : List Paths.Component) :
    Path → List Paths.Component → Prog Tree RegistryError Unit
  | _, [] => pure ()
  | current, .normal name :: rest => do
      match ← attempt (openDirNofollow e current (osString (String.ofList name))) with
      | .ok next => createRelativeDirs path next rest
      | .error .notFound => do
          mapError (.io (names path)) (createDir e current (osString (String.ofList name)))
          let next ← mapError (.io (names path))
            (openDirNofollow e current (osString (String.ofList name)))
          createRelativeDirs path next rest
      | .error source => fail (.io (names path) source)
  | _, _ :: _ => fail (syncError "unsafe archive path")

/-- Make the directories of an entry. -/
def createRelativeDirAll (root : Path) (path : List Paths.Component) :
    Prog Tree RegistryError Unit := do
  mapError (.io (names path)) (quiet e (.cloneDir root))
  createRelativeDirs e path root path

/-- The loop of `open_parent_dir` over the components of a parent. -/
def openDirs (path : List Paths.Component) :
    Path → List Paths.Component → Prog Tree RegistryError Path
  | current, [] => pure current
  | current, .normal name :: rest => do
      let next ← mapError (.io (names path))
        (openDirNofollow e current (osString (String.ofList name)))
      openDirs path next rest
  | _, _ :: _ => fail (syncError "unsafe archive path")

/-- Where an entry goes. -/
def openParentDir (root : Path) (path : List Paths.Component) :
    Prog Tree RegistryError (Path × OsString) :=
  match path.getLast? with
  | some (.normal name) => do
      createRelativeDirAll e root path.dropLast
      mapError (.io (names path)) (quiet e (.cloneDir root))
      let parent ← openDirs e path root path.dropLast
      return (parent, osString (String.ofList name))
  | _ => fail (syncError "empty archive path")

/-- Write an entry. -/
def copyExact (entry : Entry) (file : Path) (path : List Paths.Component) :
    Prog Tree RegistryError Unit := do
  let copied ← mapError (.io (names path)) (copy e entry file entry.size)
  if copied ≠ entry.size then fail (syncError "archive file ended before declared size")
  else pure ()

/-- A file of the archive, from the opening of its directory on. -/
def extractFile (root : Path) (path : List Paths.Component) (entry : Entry) :
    Prog Tree RegistryError Unit := do
  let (parent, name) ← openParentDir e root path
  let file ← mapError (.io (names path)) (createNewFile e parent name)
  copyExact e entry file path
  mapError (.io (names path)) (quiet e (.flush file))
  mapError (.io (names path)) (quiet e (.setFileMode file))

/-- The loop of `extract_archive`, with its counters. -/
def extractEntries (root : Path) :
    List (Except IoError Entry) → ℕ → ℕ → ℕ → Prog Tree RegistryError Unit
  | [], _, _, _ => pure ()
  | item :: rest, entries, files, expanded =>
      if maxArchiveEntries < entries + 1 then
        fail (syncError s!"archive entry limit {maxArchiveEntries} exceeded")
      else do
        let entry ← ofExcept (item.mapError (.io [osString "archive"]))
        let path ← ofExcept (safeArchivePath entry.pathBytes)
        match entry.entryType with
        | .directory =>
            if entry.size ≠ 0 then fail (syncError "directory entry contains data")
            else do
              createRelativeDirAll e root (Paths.components path)
              extractEntries root rest (entries + 1) files expanded
        | .file =>
            if maxFileBytes < entry.size then
              fail (syncError s!"file size limit {maxFileBytes} exceeded")
            else if maxFiles < files + 1 then fail (syncError s!"file limit {maxFiles} exceeded")
            else if 2 ^ 64 ≤ expanded + entry.size then
              fail (syncError "expanded byte counter overflowed")
            else if maxExpandedBytes < expanded + entry.size then
              fail (syncError s!"expanded archive limit {maxExpandedBytes} exceeded")
            else do
              extractFile e root (Paths.components path) entry
              extractEntries root rest (entries + 1) (files + 1) (expanded + entry.size)
        | .other => fail (syncError "unsupported archive entry type")

/-- How many bytes follow the end of the archive, all of them zero. -/
def checkPadding : List (Except IoError Bytes) → ℕ → Except RegistryError ℕ
  | [], trailing => .ok trailing
  | .error source :: _, _ => .error (.io [osString "archive"] source)
  | .ok [] :: _, trailing => .ok trailing
  | .ok (b :: chunk) :: rest, trailing =>
      let count := (b :: chunk).length
      if 2 ^ 64 ≤ trailing + count then .error (syncError "tar padding counter overflowed")
      else if maxTarPaddingBytes < trailing + count ∨ (b :: chunk).any (· ≠ 0) then
        .error (syncError "decompressed bytes after tar end")
      else checkPadding rest (trailing + count)

/-- What `extract_archive` checks behind the entries. -/
def checkTrailer (archive : Archive) : Except RegistryError Unit := do
  let trailing ← checkPadding archive.padding 0
  if trailing % 512 ≠ 0 then .error (syncError "non-canonical tar padding")
  else
    match archive.trailing with
    | .error source => .error (.io [osString "archive"] source)
    | .ok [] => .ok ()
    | .ok _ => .error (syncError "trailing compressed bytes are not allowed")

/-- Unpack an archive. -/
def extractArchive (root : Path) (archive : Archive) : Prog Tree RegistryError Unit := do
  let entries ← ofExcept (archive.entries.mapError (.io [osString "archive"]))
  extractEntries e root entries 0 0 0
  ofExcept (checkTrailer archive)

/-! ### Replacing the destination -/

/-- A name in a directory; `Path::parent` gives the directory. -/
structure Destination where
  parent : Path
  name : OsString

/-- The path of the registry. -/
def Destination.path (d : Destination) : Path := d.parent ++ [d.name]

/-- `Path::display`. -/
def display (path : Path) : String :=
  String.ofList (Utf8.lossy (path.flatMap fun name => 0x2F :: name))

/-- The container of the backup goes when `m` fails. -/
def orDrop {α : Type} (container : Path) (m : Prog Tree RegistryError α) :
    Prog Tree RegistryError α := do
  match ← attempt m with
  | .ok a => pure a
  | .error error => do
      dropTempDir e container
      fail error

/-- The old tree goes into the container; the answer is whether there is one. -/
def setAside (d : Destination) (container : Path) : Prog Tree RegistryError Bool :=
  orDrop e container do
    mapError (.io container) (quiet e (.setMode container))
    let hadOld ← mapError (.io d.path) (symlinkMetadata e d.path)
    if hadOld then do
      mapError (.io d.path) (renamePath e d.path (container ++ [osString "old"]))
      return true
    else return false

/-- What follows an installation that failed. -/
def rollback (d : Destination) (container : Path) (hadOld : Bool) (install : IoError) :
    Prog Tree RegistryError Unit :=
  if hadOld = false then do
    dropTempDir e container
    fail (.io d.path install)
  else do
    match ← attempt (renamePath e (container ++ [osString "old"]) d.path) with
    | .error source =>
        fail (syncError s!"install staged registry failed: {install.text}; rollback failed: {
          source.text}; backup retained at {display container}")
    | .ok () => do
        match ← attempt (removeAllPath e container) with
        | .error cleanup =>
            fail (syncError s!"install staged registry failed: {install.text
              }; rollback succeeded; backup cleanup failed at {display container}: {cleanup.text}")
        | .ok () => fail (.io d.path install)

/-- Put the new registry in place. -/
def replaceDirectory (d : Destination) (staging : Path) : Prog Tree RegistryError Unit := do
  let container ← mapError (.io d.parent) (tempdirIn e d.parent ".registry-backup-")
  let hadOld ← setAside e d container
  match ← attempt (renamePath e staging d.path) with
  | .error install => rollback e d container hadOld install
  | .ok () => mapError (.io container) (removeAllPath e container)

/-! ### Synchronisation -/

/-- `load_from_dir`, which reads only. -/
def loadFromDir (path : Path) : Prog Tree RegistryError Unit :=
  perform e.faults (.load path) (fun t => (e.loadFromDir (sub t path), t)) fun fault t =>
    (.io path (.other fault.message), t)

/-- What happens while the staging directory is there. -/
def syncStaged (url : String) (d : Destination) (staging : Path) :
    Prog Tree RegistryError Unit := do
  mapError (.io staging) (quiet e (.setMode staging))
  let response ← ofExcept (e.transport url requestTimeout)
  if response.status ≠ 200 then
    fail (syncError s!"download returned HTTP {response.status.toNat}")
  else do
    let compressed ← ofExcept (readBounded response.body maxCompressedBytes [] 0)
    mapError (.io staging) (quiet e (.openDir staging))
    extractArchive e staging (e.archive compressed)
    loadFromDir e staging
    replaceDirectory e d staging

/-- Fetch and install a registry. -/
def syncWithTransport (url : String) (d : Destination) : Prog Tree RegistryError Unit := do
  ofExcept (validateUrl e url)
  mapError (.io d.parent) (createDirAll e d.parent)
  let staging ← mapError (.io d.parent) (tempdirIn e d.parent ".registry-sync-")
  let outcome ← attempt (syncStaged e url d staging)
  dropTempDir e staging
  ofExcept outcome

end EraseMe.Registry.Sync
