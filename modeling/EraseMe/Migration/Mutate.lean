import EraseMe.Library.CleanPath
import EraseMe.Library.Faulty
import EraseMe.Library.FileTree
import EraseMe.Library.Lowercase
import EraseMe.Migration.StateText
import EraseMe.Scheduler

/-!
# `migration`: moving an installation

`mutate` makes a backup of the source, which a marker completes, and then brings one artifact after
another to its destination.  A state file says which are done; the next run goes on from there.

* A path is the list of its names from the root; `validate_roots` and `config_roots` have cleaned the
  roots by then.  What is neither a file nor a directory is a symbolic link.
* Every operation on the file system may fail, a write and the making of directories also halfway
  (`Fault`).  Modes are not kept: setting one only fails.
* Directories nest no deeper than the file system allows (`Environment.depth`).
-/

namespace EraseMe.Migration

open Faulty Faulty.Prog FileTree
open Json (Octets)

/-- A name of a file. -/
abbrev Name := List Char

/-- A path as its names. -/
abbrev Path := List Name

/-- The files of the host. -/
abbrev Files := FileTree.Tree Name

/-- A literal as a name. -/
def name (s : String) : Name := s.toList

/-- A path as text. -/
def display (path : Path) : String :=
  String.ofList (Paths.ofComponents (.rootDir :: path.map .normal))

/-- Where the text of a path leads from the root. -/
def pathOf (s : String) : Path := Paths.resolve [] s.toList

/-! ### What may fail -/

/-- What the host is asked to do. -/
inductive Operation
  | metadata (path : Path)
  | read (path : Path)
  | readDir (path : Path)
  | createDirAll (path : Path)
  | createTemp (path : Path)
  | setMode (path : Path)
  | write (path : Path)
  | sync (path : Path)
  | rename (source target : Path)
  | remove (path : Path)
  deriving DecidableEq, Repr

/-- What went wrong, and how many octets were written or directories made before it. -/
structure Failing where
  message : String
  written : ℕ

/-- Why it is not done. -/
inductive Failure
  | notFound
  | other (text : String)
  deriving DecidableEq, Repr

/-- The text of a failure. -/
def Failure.text : Failure → String
  | .notFound => "No such file or directory (os error 2)"
  | .other text => text

/-- The text without its number, and its first letter in lower case. -/
def goErrnoText : Failure → String
  | .notFound => "no such file or directory"
  | .other text =>
      let base := match Text.find (name " (os error") text.toList with
        | some i => text.toList.take i
        | none => text.toList
      match base with
      | [] => ""
      | first :: rest => String.ofList (Lowercase.charLower first ++ rest)

/-- The error of an operation. -/
def ioError (op : String) (path : Path) (failure : Failure) : String :=
  op ++ " " ++ display path ++ ": " ++ goErrnoText failure

def notADirectory : Failure := .other "Not a directory (os error 20)"

def isADirectory : Failure := .other "Is a directory (os error 21)"

/-! ### What a run is asked for, and what it reports -/

/-- What was found of secrets. -/
structure SecretReport where
  detected : Bool := false
  referenceCount : ℕ := 0
  description : String := ""
  migratable : Bool := false
  deriving DecidableEq, Repr

/-- The source may be missing. -/
structure Artifact where
  id : String
  kind : String
  source : Option Path
  destination : Path
  reason : String
  deriving DecidableEq, Repr

/-- What was detected. -/
structure Detection where
  detected : Bool
  summary : String
  reasons : Option (List String)
  secretStore : SecretReport
  artifacts : Option (List Artifact)
  deriving DecidableEq, Repr

/-- What became of an artifact. -/
structure ItemResult where
  artifact : Artifact
  status : String
  error : String
  deriving DecidableEq, Repr

/-- What a run reports. -/
structure Report where
  detection : Detection
  dryRun : Bool
  resumed : Bool
  backupDir : String
  items : Option (List ItemResult)
  warnings : List String
  complete : Bool
  deriving DecidableEq, Repr

/-- What `mutate` looks at.  `secretStore` is what the store answers when it is to migrate. -/
structure Options where
  backupDir : Option Path
  homeDir : Option Path
  platform : List Char
  schedulerSource : Option Path
  schedulerDest : Option Path
  binaryPath : List Char
  projectDir : List Char
  schedulerConfig : Scheduler.Config
  copySecrets : Bool
  secretStore : Option (Except String Unit)
  beforeItem : Option (Artifact → Except String Unit)

/-- What runs have in common. -/
structure Environment where
  faults : ℕ → Operation → Option Failing
  /-- The names in a directory. -/
  listing : Files → Path → List Name
  depth : ℕ
  /-- The letters behind the prefix in the name of a temporary file. -/
  random : Name
  around : Scheduler.Surroundings
  workingDirectory : Path

/-- The file system and the report as far as it is filled in. -/
structure Progress where
  files : Files
  report : Report

variable (e : Environment)

/-! ### The file system -/

/-- An operation on the file system; `halfway` is what a failure leaves. -/
def system {α : Type} (o : Operation) (effect : Files → Except Failure α × Files)
    (halfway : Failing → Files → Files) : Prog Progress Failure α :=
  perform e.faults o (fun s => ((effect s.files).1, { s with files := (effect s.files).2 }))
    fun fault s => (.other fault.message, { s with files := halfway fault s.files })

/-- An operation that changes nothing. -/
def asks {α : Type} (o : Operation) (answer : Files → Except Failure α) :
    Prog Progress Failure α :=
  system e o (fun t => (answer t, t)) fun _ t => t

/-- A file is in the way. -/
def obstructed (t : Files) (path : Path) : Bool :=
  path.inits.any fun p => t p ≠ none ∧ t p ≠ some .directory

/-- Why nothing is found. -/
def missing (t : Files) (path : Path) : Failure :=
  if obstructed t path.dropLast then notADirectory else .notFound

/-- What is at a path. -/
def symlinkMetadata (path : Path) : Prog Progress Failure Node :=
  asks e (.metadata path) fun t =>
    match t path with
    | some node => .ok node
    | none => .error (missing t path)

/-- Something is there. -/
def isThere {ε : Type} (path : Path) : Prog Progress ε Bool := do
  let r ← attempt (symlinkMetadata e path)
  return r.isOk

/-- Read a file. -/
def read (path : Path) : Prog Progress Failure Octets :=
  asks e (.read path) fun t =>
    match t path with
    | some (.file bytes) => .ok bytes
    | some .directory => .error isADirectory
    | some .special => .error (.other "Too many levels of symbolic links (os error 40)")
    | none => .error (missing t path)

/-- List a directory. -/
def readDir (path : Path) : Prog Progress Failure (List Name) :=
  asks e (.readDir path) fun t =>
    match t path with
    | some .directory => .ok (e.listing t path)
    | some _ => .error notADirectory
    | none => .error (missing t path)

/-- Make all directories. -/
def mkdir (path : Path) : Prog Progress String Unit :=
  mapError (ioError "mkdir" path) (system e (.createDirAll path)
    (fun t =>
      if obstructed t path then (.error notADirectory, t) else (.ok (), makeDirs t path))
    -- what was made before the failure stays
    fun fault t => if obstructed t path then t else makeDirs t (path.take fault.written))

/-- The path of a temporary file. -/
def temporary (parent : Path) : Path := parent ++ [name ".migration-write-" ++ e.random]

/-- Make a temporary file. -/
def tempfileIn (parent : Path) : Prog Progress Failure Unit :=
  system e (.createTemp parent)
    (fun t =>
      match t parent, t (temporary e parent) with
      | some .directory, none => (.ok (), put t (temporary e parent) (.file []))
      | some .directory, some _ => (.error (.other "File exists (os error 17)"), t)
      | some _, _ => (.error notADirectory, t)
      | none, _ => (.error .notFound, t))
    fun _ t => t

/-- Write a file. -/
def writeAll (path : Path) (data : Octets) : Prog Progress Failure Unit :=
  system e (.write path) (fun t => (.ok (), put t path (.file data)))
    fun fault t => put t path (.file (data.take fault.written))

/-- The files without one. -/
def erase (t : Files) (path : Path) : Files := fun l => if l = path then none else t l

/-- `persist`: a file or a link at the target is replaced. -/
def renamed (source target : Path) (t : Files) : Except Failure Unit × Files :=
  if t target = some .directory then (.error isADirectory, t)
  else
    match t source with
    | none => (.error .notFound, t)
    | some node => (.ok (), put (erase t source) target node)

/-- Rename a file. -/
def persist (source target : Path) : Prog Progress Failure Unit :=
  system e (.rename source target) (renamed source target) fun _ t => t

/-- Remove a file. -/
def remove (path : Path) : Prog Progress Failure Unit :=
  system e (.remove path)
    (fun t =>
      match t path with
      | some .directory => (.error isADirectory, t)
      | some _ => (.ok (), erase t path)
      | none => (.error (missing t path), t))
    fun _ t => t

/-! ### Files that are written as a whole -/

/-- The prefixes of a path one after the other; what is missing ends the walk. -/
def rejectFrom : Path → List Name → Prog Progress String Unit
  | _, [] => return ()
  | path, component :: rest => do
      match ← attempt (symlinkMetadata e (path ++ [component])) with
      | .error .notFound => return ()
      | .error failure => fail failure.text
      | .ok .special => fail ("symlink component: " ++ display (path ++ [component]))
      | .ok _ => rejectFrom (path ++ [component]) rest

/-- No part is a symlink. -/
def rejectSymlinkComponents (path : Path) : Prog Progress String Unit := rejectFrom e [] path

/-- The temporary file of a write that fails is removed. -/
def writeAtomic (path : Path) (data : Octets) : Prog Progress String Unit := do
  mapError ("destination path is unsafe: " ++ ·) (rejectSymlinkComponents e path)
  if path = [] then fail "destination has no parent"
  else
    let parent := path.dropLast
    let temp := temporary e parent
    mkdir e parent
    mapError (ioError "open" path) (tempfileIn e parent)
    match ← attempt (do
      mapError (ioError "chmod" path) (asks e (.setMode temp) fun _ => .ok ())
      mapError (ioError "write" path) (writeAll e temp data)
      mapError (ioError "sync" path) (asks e (.sync temp) fun _ => .ok ())
      mapError (ioError "rename" path) (persist e temp path)) with
    | .ok _ => return ()
    | .error error =>
        -- dropping the `NamedTempFile` removes it; what that meets is ignored
        let _ ← attempt (remove e temp)
        fail error

/-- Copy a file. -/
def copyOne (source destination : Path) : Prog Progress String Unit := do
  mapError ("source path is unsafe: " ++ ·) (rejectSymlinkComponents e source)
  match ← mapError (ioError "lstat" source) (symlinkMetadata e source) with
  | .file _ => do
      let data ← mapError (ioError "open" source) (read e source)
      writeAtomic e destination data
  | _ => fail ("source is not a regular file: " ++ display source)

/-- The entries of a directory, where `tree` copies a directory. -/
def copyEntries (tree : Path → Path → Prog Progress String Unit) (source destination : Path) :
    List Name → Prog Progress String Unit
  | [] => return ()
  | entry :: entries => do
      let src := source ++ [entry]
      let dst := destination ++ [entry]
      match ← mapError (ioError "lstat" src) (symlinkMetadata e src) with
      | .special => fail ("refusing symlink in source: " ++ display src)
      | .directory => do
          tree src dst
          copyEntries tree source destination entries
      | .file _ => do
          copyOne e src dst
          copyEntries tree source destination entries

/-- Copy a tree. -/
def copyTree : ℕ → Path → Path → Prog Progress String Unit
  | 0, source, _ => fail (ioError "open" source (.other "File name too long (os error 36)"))
  | depth + 1, source, destination => do
      mkdir e destination
      let entries ← mapError (ioError "open" source) (readDir e source)
      copyEntries e (copyTree depth) source destination (entries.mergeSort fun a b => !(b < a))

/-! ### The backup -/

/-- The marker of a backup. -/
def markerOf (backup : Path) : Path := backup ++ [name ".complete.json"]

/-- The files outside of both directories. -/
def backupExternal (backup source config : Path) :
    List Artifact → List ExternalBackup → Prog Progress String (List ExternalBackup)
  | [], external => return external
  | a :: artifacts, external =>
      match a.source with
      | none => backupExternal backup source config artifacts external
      | some path => do
          let there ← isThere e path
          if ¬ there ∨ source <+: path ∨ config <+: path then
            backupExternal backup source config artifacts external
          else
            let file := Text.padded 10 3 external.length ++
              '-' :: Text.replaceAll (path.getLast?.getD []) (name "..") (name "_")
            mapError (fun error => "backup " ++ a.id ++ ": " ++ error)
              (copyOne e path (backup ++ [name "external", file]))
            backupExternal backup source config artifacts
              (external ++ [⟨a.id, display path, "external/" ++ String.ofList file⟩])

/-- `ensure_backup` behind the copies of the trees. -/
def finishBackup (backup source config : Path) (artifacts : List Artifact) :
    Prog Progress String Unit := do
  let external ← backupExternal e backup source config artifacts []
  let manifest : BackupManifest := {
    version := 1
    source := display source
    artifacts := if artifacts = [] then none else some (artifacts.map Artifact.id)
    external := if external = [] then none else some external }
  mapError ("finalize backup: " ++ ·) (writeAtomic e (markerOf backup) (jsonBytes manifest.value))

/-- `ensure_backup` without a marker. -/
def makeBackup (backup source config : Path) (artifacts : List Artifact) :
    Prog Progress String Unit := do
  let there ← isThere e backup
  if there then
    fail "backup directory exists without a complete marker; refusing to overwrite it"
  else
    mapError ("backup source: " ++ ·) (copyTree e e.depth source (backup ++ [name "source"]))
    let configThere ← isThere e config
    if config ≠ source ∧ configThere then
      mapError (fun error => "backup additional source " ++ display config ++ ": " ++ error)
        (copyTree e e.depth config (backup ++ [name "config-0"]))
    finishBackup e backup source config artifacts

/-- Make a backup, unless there is one. -/
def ensureBackup (backup source config : Path) (artifacts : List Artifact) :
    Prog Progress String Unit := do
  let marker := markerOf backup
  match ← attempt (symlinkMetadata e marker) with
  | .ok (.file _) => do
      let data ← mapError (fun failure => "read backup completion marker: " ++
        ioError "open" marker failure) (read e marker)
      -- the marker tells whose backup it is, and not what the source held at that time
      if markerMatches data (display source) = .ok true then return ()
      else fail "backup completion marker does not match this source"
  | .ok _ => fail "backup completion marker is not a regular file"
  | .error (.other text) =>
      fail ("inspect backup completion marker: " ++ ioError "lstat" marker (.other text))
  | .error .notFound => makeBackup e backup source config artifacts

/-! ### The artifacts -/

/-- What `scheduler::generate` may report. -/
def generateError : Scheduler.SchedulerError → String
  | .invalidTickTime => "tick time must be a valid 24-hour time"
  | .invalidPollHour hour => "poll hour must be between 0 and 23: " ++ toString hour
  | .resolveBinaryPath source => "resolve symeraseme executable: " ++ source.text
  | .resolveProjectDirectory source => "resolve project directory: " ++ source.text
  | _ => ""

/-- The platform asked for. -/
def platformOf (o : Options) : Except String Scheduler.Platform :=
  if o.platform = [] then .ok e.around.platform
  else if o.platform = name "cron" then .ok .cron
  else if o.platform = name "launchd" then .ok .launchd
  else if o.platform = name "systemd" then .ok .systemd
  else .error ("unsupported platform: " ++ String.ofList o.platform ++
    " (choose cron, launchd, or systemd)")

/-- Where schedules go. -/
def schedules (destination : Path) : List Char :=
  Paths.join (display destination).toList (name "schedules")

/-- The files of the scheduler. -/
def generated (o : Options) (destination : Path) : Except String Scheduler.Files := do
  let c := o.schedulerConfig
  let platform ← platformOf e o
  let c := { c with platform := some platform }
  let c := if c.outputDir = [] then { c with outputDir := schedules destination } else c
  -- midnight stands for a time that is not set
  let c := if c.tickHour = 0 ∧ c.tickMinute = 0 then { c with tickHour := 10 } else c
  let c := if c.pollHours = [] then { c with pollHours := [8, 12, 16, 20] } else c
  let c := if c.binaryPath = [] then { c with binaryPath := o.binaryPath } else c
  let c := if c.projectDir = [] then { c with projectDir := o.projectDir } else c
  (Scheduler.generate e.around c).mapError generateError

/-- Where the platform has its units. -/
def nativeRoot (home : Option Path) : Scheduler.Platform → Option Path
  | .launchd => some (home.getD e.workingDirectory ++ [name "Library", name "LaunchAgents"])
  | .systemd => some (home.getD e.workingDirectory ++ [name ".config", name "systemd", name "user"])
  | .cron => none

/-- What is delivered. -/
def artifactData (a : Artifact) (files : Scheduler.Files) : Prog Progress String Octets :=
  if a.kind = "scheduler" then
    let file := a.destination.getLast?.getD []
    match files.lookup file with
    | some content => return Utf8.encode (String.ofList content)
    | none => fail ("no generated scheduler content for " ++ String.ofList file)
  else
    match a.source with
    | none => fail ("migration source missing for " ++ a.id)
    | some source => do
        let reading := fun failure => "read migration source " ++ display source ++ ": " ++ failure
        match ← mapError (reading ∘ ioError "lstat" source) (symlinkMetadata e source) with
        | .file _ => mapError (reading ∘ ioError "open" source) (read e source)
        | _ => fail ("migration source is not a regular file: " ++ display source)

/-- The directory of the wrappers is filled in. -/
def filledIn (o : Options) (destination : Path) (data : Octets) : Octets :=
  let wrapper := if o.schedulerConfig.outputDir = [] then schedules destination
    else o.schedulerConfig.outputDir
  Utf8.encode (String.ofList
    (Text.replaceAll (Utf8.lossy data) Scheduler.wrapperDirPlaceholder wrapper))

/-! ### The report -/

/-- Change the report. -/
def setReport (f : Report → Report) : Prog Progress String Unit :=
  update fun s => { s with report := f s.report }

/-- Fill in the result of an artifact by its place. -/
def setItem (i : ℕ) (f : ItemResult → ItemResult) : Prog Progress String Unit :=
  setReport fun report => { report with items := report.items.map fun items => items.modify i f }

/-! ### The run -/

/-- The file of the state. -/
def statePath (destination : Path) : Path := destination ++ [name ".migration-state.json"]

/-- Write the state. -/
def writeState (path : Path) (st : State) : Prog Progress String Unit :=
  writeAtomic e path (jsonBytes st.value)

/-- The state of an earlier run. -/
def loadState (source destination : Path) : Prog Progress String State := do
  let path := statePath destination
  match ← attempt (read e path) with
  | .ok data =>
      match state data with
      | .ok st =>
          if st.version ≠ 1 ∨ st.sourceRoot ≠ display source ∨
              st.destinationRoot ≠ display destination then
            fail "migration state does not match the requested source and destination"
          else if st.backupDir = "" then fail "migration state has no backup directory"
          else
            setReport fun report => { report with resumed := true }
            return st
      | .error (.error message) => fail ("decode migration state: " ++ message)
      | .error _ => fail "panicked"
  | .error .notFound => return {}
  | .error failure => fail ("read migration state: " ++ ioError "open" path failure)

/-- The status of an artifact. -/
def itemStatus (st : State) (id : String) : Option String :=
  st.items.bind fun items => items.get id

/-- Note a status. -/
def State.mark (st : State) (id status : String) : State :=
  { st with items := some ((st.items.getD .empty).insert id status) }

/-- Bring one artifact to its destination; what goes wrong is reported in two ways. -/
def deliver (o : Options) (destination : Path) (files : Scheduler.Files) (a : Artifact) :
    Prog Progress (String × String) Unit :=
  if a.kind = "secret-store" then
    match o.secretStore.getD (.error ("secret migration requires an injected SecretStore; " ++
      "secret values are never copied by default")) with
    | .ok _ => return ()
    | .error error => fail (error, "migrate secret store: " ++ error)
  else do
    let data ← mapError (fun error => (error, error)) (artifactData e a files)
    let data := if a.kind = "scheduler" then filledIn o destination data else data
    mapError (fun error => (error, "write " ++ display a.destination ++ ": " ++ error))
      (writeAtomic e a.destination data)

/-- One artifact: the state after it. -/
def migrateItem (o : Options) (destination : Path) (files : Scheduler.Files) (i : ℕ) (a : Artifact)
    (st : State) : Prog Progress String State :=
  if itemStatus st a.id = some "done" then do
    setItem i fun item => { item with status := "skipped" }
    return st
  else
    match (o.beforeItem.getD fun _ => .ok ()) a with
    | .error error => do
        setItem i fun item => { item with status := "failed", error }
        fail ("migrate " ++ a.id ++ ": " ++ error)
    | .ok _ =>
        -- `manual` is not `done`: a later run comes here again
        if a.kind = "secret-store" ∧ ¬ o.copySecrets then do
          setItem i fun item => { item with status := "manual" }
          setReport fun report => { report with warnings := report.warnings ++
            ["secret values were not copied; configure the Go secret store manually"] }
          let st := st.mark a.id "manual"
          writeState e (statePath destination) st
          return st
        else do
          match ← attempt (deliver e o destination files a) with
          | .error (itemError, error) => do
              setItem i fun item => { item with status := "failed", error := itemError }
              fail error
          | .ok _ => do
              let st := st.mark a.id "done"
              setItem i fun item => { item with status := "done" }
              writeState e (statePath destination) st
              return st

/-- Deliver one after another. -/
def migrateItems (o : Options) (destination : Path) (files : Scheduler.Files) :
    ℕ → List Artifact → State → Prog Progress String State
  | _, [], st => return st
  | i, a :: artifacts, st => do
      let st ← migrateItem e o destination files i a st
      migrateItems o destination files (i + 1) artifacts st

/-- One path leads through the other. -/
def overlap (a b : Path) : Bool := a.isPrefixOf b || b.isPrefixOf a

/-- The directory of the backup: the one of the state, or the one that is asked for. -/
def backupOf (o : Options) (destination : Path) (st : State) : Path :=
  if st.backupDir ≠ "" then pathOf st.backupDir
  else o.backupDir.getD (pathOf (display destination ++ ".migration-backup"))

/-- The state that the items are entered into. -/
def begun (source destination backup : Path) (st : State) : State :=
  let st := if st.version = 0 then {
      version := 1
      sourceRoot := display source
      destinationRoot := display destination
      backupDir := display backup } else st
  { st with items := some (st.items.getD .empty) }

/-- Back up, then deliver the planned artifacts and note each in the state. -/
def mutate (o : Options) (source destination cs cd : Path) : Prog Progress String Unit := do
  let report ← inspect Progress.report
  if o.copySecrets ∧ report.detection.secretStore.detected ∧
      ¬ report.detection.secretStore.migratable then
    fail "secret store was detected but no migratable SecretStore was injected"
  else
    let st ← loadState e source destination
    let backup := backupOf o destination st
    mapError ("backup directory is unsafe: " ++ ·) (rejectSymlinkComponents e backup)
    let platform ← ofExcept (platformOf e o)
    let roots := [source, destination, cs, cd] ++ o.schedulerSource.toList ++
      o.schedulerDest.toList ++ (nativeRoot e o.homeDir platform).toList
    if roots.any (overlap · backup) then
      fail ("backup directory must be outside all migration source and destination " ++
        "directories")
    else
      -- nothing outside of the backup is written before this
      ensureBackup e backup source cs (report.detection.artifacts.getD [])
      setReport fun report => { report with backupDir := display backup }
      let st := begun source destination backup st
      mapError ("create destination: " ++ ·) (mkdir e destination)
      writeState e (statePath destination) st
      let files ← ofExcept (generated e o destination)
      let artifacts := (report.items.getD []).map ItemResult.artifact
      let st ← migrateItems e o destination files 0 artifacts st
      let complete := artifacts.all fun a => itemStatus st a.id = some "done"
      setReport fun report => { report with complete }

end EraseMe.Migration
