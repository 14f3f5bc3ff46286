import EraseMe.Library.Result
import EraseMe.Scheduler

/-!
# `scheduler::install`: the schedule on the machine

`install` scans for legacy units, writes the generated files, removes the legacy units, and
installs the crontab or the native units.  Every access to the file system and every command is an
operation that the host answers; the log holds the operations in order, each with whether it
succeeded.

`Machine` is what the successful operations leave: the files written, and the table that the last
`crontab` command installed.
-/

namespace EraseMe.Scheduler

open Paths

/-- What the process asks its host to do. -/
inductive Op
  | createDirAll (path : Path)
  | metadata (path : Path)
  | read (path : Path)
  | replaceFile (path : Path) (contents : List Char) (mode : ℕ)
  | write (path : Path) (contents : List Char)
  | removeFile (path : Path)
  | run (name : List Char) (args : List (List Char))
  deriving DecidableEq, Repr

/-- What an operation that succeeds returns: a text read or put out, or the bits of a mode. -/
structure Reply where
  text : List Char := []
  mode : ℕ := 0

/-- What was asked, and if it worked. -/
abbrev Event := Op × Bool

/-- The host answers each operation, from what was done before. -/
structure Host where
  around : Surroundings
  homeVar : Option Path
  xdgConfigHomeVar : Option Path
  stagingNumber : List Event → ℕ
  answer : List Event → Op → Except IoError Reply

/-- A program on the host. -/
abbrev Io := StateT (List Event) (Except SchedulerError)

/-- An operation whose failure the caller handles. -/
def attempt (host : Host) (op : Op) : Io (Except IoError Reply) := fun log =>
  let reply := host.answer log op
  .ok (reply, log ++ [(op, reply.isOk)])

/-- An operation whose failure the caller returns. -/
def perform (host : Host) (op : Op) (wrap : IoError → SchedulerError) : Io Reply := do
  match ← attempt host op with
  | .ok reply => pure reply
  | .error e => throw (wrap e)

/-- A unit of an older version. -/
structure LegacyUnit where
  platform : Option Platform
  kind : List Char
  name : List Char
  path : Path
  isPython : Bool
  reason : List Char
  deriving DecidableEq, Repr

/-- The options of an installation. -/
structure InstallOptions where
  config : Config
  platformName : Option (List Char) := none
  homeDir : Option Path := none
  xdgConfigHome : Option Path := none
  replaceLegacy : Bool := false

/-- What was installed. -/
structure InstallResult where
  platform : Platform
  outputDir : Path
  files : List Path
  legacy : List LegacyUnit
  replacementRequired : Bool

/-! ### Writing files -/

/-- Replaces a file by way of a temporary one.  A file that exists keeps its mode. -/
def writeWithMode (host : Host) (path : Path) (contents : List Char) (mode : ℕ)
    (wrap : IoError → SchedulerError) : Io Unit := do
  let mode ← match ← attempt host (.metadata path) with
    | .ok reply => pure (reply.mode % 512)
    | .error e => if e.kind = .notFound then pure mode else throw (wrap e)
  discard <| perform host (.replaceFile path contents mode) wrap

/-- Write one file. -/
def writeFile (host : Host) (root : Path) (file : List Char × List Char) : Io Path := do
  let path := join root (lexicallyClean file.1)
  let mode := if (text ".sh").isSuffixOf file.1 then 0o755 else 0o644
  writeWithMode host path file.2 mode (.writeFile path)
  pure path

/-- The directory the files go to. -/
def outputRoot (around : Surroundings) (outputDir : Path) : Except SchedulerError Path :=
  if isAbsolute outputDir then .ok (lexicallyClean outputDir)
  else do
    let dir ← around.currentDir.mapError .resolveOutputDirectory
    .ok (lexicallyClean (join dir outputDir))

/-- Writes generated files in sorted order and returns absolute paths. -/
def writeFiles (host : Host) (outputDir : Path) (files : Files) : Io (List Path) := do
  if outputDir = [] then throw .emptyOutputDirectory
  let root ← outputRoot host.around outputDir
  discard <| perform host (.createDirAll root) .createOutputDirectory
  match files.find? fun file => !isSafeRelativeFilename file.1 with
  | some file => throw (.invalidGeneratedFilename file.1)
  | none => files.mapM (writeFile host root)

/-! ### Legacy units -/

/-- The home directory, or `$HOME`. -/
def legacyHome (host : Host) (home : Option Path) : Except SchedulerError Path :=
  if home.getD [] ≠ [] then .ok (home.getD [])
  else if host.homeVar.getD [] ≠ [] then .ok (host.homeVar.getD [])
  else .error (.resolveHomeDirectory ⟨.notFound, "$HOME is not defined"⟩)

/-- Where the units of a platform are, their names, and what kind they are. -/
def legacyNames (home : Path) : Platform → Option (Path × List (List Char) × List Char)
  | .launchd => some (join (join home (text "Library")) (text "LaunchAgents"),
      [text "com.symeraseme.tick.plist", text "com.symeraseme.poll.plist",
        text "com.symeraseme.rescan.plist"], text "launchd")
  | .systemd => some (join (join (join home (text ".config")) (text "systemd")) (text "user"),
      [text "symeraseme-tick.service", text "symeraseme-tick.timer",
        text "symeraseme-poll.service", text "symeraseme-poll.timer",
        text "symeraseme-rescan.service", text "symeraseme-rescan.timer"], text "systemd")
  | .cron => none

/-- A unit that is there and that this program did not write. -/
def scanUnit (host : Host) (platform : Platform) (root : Path) (kind name : List Char) :
    Io (Option LegacyUnit) := do
  let path := join root name
  match ← attempt host (.read path) with
  | .error e => if e.kind = .notFound then pure none else throw (.readLegacyUnit path e)
  | .ok reply =>
      let isPython := isPythonSchedulerContent reply.text
      if isOwnGeneratedUnit reply.text then pure none
      else pure (some
        { platform := some platform, kind, name, path, isPython,
          reason := if isPython then
              text "existing Python scheduler unit; explicit replacement required"
            else text "existing Symaira scheduler unit; explicit replacement required" })

/-- Scans the native per-user unit locations. -/
def scanLegacyPythonUnits (host : Host) (home : Option Path) (platform : Platform) :
    Io (List LegacyUnit) := do
  let homeDir ← legacyHome host home
  match legacyNames homeDir platform with
  | none => pure []
  | some (root, names, kind) =>
      let units ← names.mapM (scanUnit host platform root kind)
      pure units.reduceOption

/-- Remove an old unit. -/
def removeLegacyUnit (host : Host) (unit : LegacyUnit) : Io Unit := do
  match ← attempt host (.removeFile unit.path) with
  | .ok _ => pure ()
  | .error e => if e.kind = .notFound then pure () else throw (.removeLegacyUnit unit.path e)

/-! ### Installation -/

/-- A platform by its name. -/
def fromName (around : Surroundings) (value : List Char) : Except SchedulerError Platform :=
  let lowered := value.map Char.toLower
  if lowered = [] then .ok around.platform
  else match Platform.parse lowered with
    | some platform => .ok platform
    | none => .error (.unsupportedPlatformOperation lowered)

/-- The raw name wins, then the typed value, then what is detected. -/
def resolvePlatform (host : Host) (options : InstallOptions) : Except SchedulerError Platform :=
  match options.platformName with
  | some name => fromName host.around name
  | none => .ok (options.config.platform.getD host.around.platform)

/-- The home directory. -/
def resolveHome (host : Host) (options : InstallOptions) : Except SchedulerError Path :=
  match options.homeDir with
  | some home => .ok home
  | none =>
      match host.homeVar with
      | some home => .ok home
      | none => .error (.resolveHomeDirectory ⟨.other, "no HOME"⟩)

/-- The per-user unit directory for the platform. -/
def installRoot (host : Host) (options : InstallOptions) (platform : Platform) :
    Except SchedulerError Path := do
  let home ← resolveHome host options
  if platform = .launchd then .ok (join (join home (text "Library")) (text "LaunchAgents"))
  else
    let configHome := if options.xdgConfigHome = none ∧ options.homeDir = none then
      host.xdgConfigHomeVar else options.xdgConfigHome
    .ok (join (join (configHome.getD (join home (text ".config"))) (text "systemd")) (text "user"))

/-- Drops the marked block, its marks included. -/
def removeCronLines : Bool → List (List Char) → List (List Char)
  | _, [] => []
  | skip, line :: lines =>
      if line = text "# Symaira EraseMe scheduled tasks" then removeCronLines true lines
      else if line = text "# End Symaira EraseMe scheduled tasks" then removeCronLines false lines
      else if skip then removeCronLines skip lines
      else line :: removeCronLines skip lines

/-- The table without the block. -/
def removeCronBlock (content : List Char) : List Char :=
  ['\n'].intercalate (removeCronLines false (Text.splitOn '\n' content))

/-- A text that is not empty ends its last line. -/
def terminated (content : List Char) : List Char :=
  if content ≠ [] ∧ content.getLast? ≠ some '\n' then content ++ ['\n'] else content

def lookupFile (files : Files) (name : List Char) : Option (List Char) :=
  (files.find? (·.1 = name)).map (·.2)

def stagingPath (host : Host) (dir : Path) (pre : List Char) : Io Path := do
  let log ← get
  let path := join dir (pre ++ Nat.toDigits 10 (host.stagingNumber log))
  discard <| perform host (.createDirAll dir) .createOutputDirectory
  pure path

/-- The table that is installed: what was there, less the old block, and the new one. -/
def updatedTable (existing content outputDir : List Char) : List Char :=
  terminated (removeCronBlock existing) ++ Text.replaceAll content Cron.wrapperToken outputDir

/-- Install for cron. -/
def installCron (host : Host) (generated : Files) (outputDir : Path) : Io Unit := do
  let existing ← attempt host (.run (text "crontab") [text "-l"])
  let existing := (existing.toOption.getD {}).text
  let content := (lookupFile generated (text "crontab.txt")).getD []
  let staging ← stagingPath host outputDir (text ".crontab-")
  discard <| perform host (.write staging (updatedTable existing content outputDir))
    (.writeCronStaging staging)
  let result ← attempt host (.run (text "crontab") [staging])
  discard <| attempt host (.removeFile staging)
  match result with
  | .ok _ => pure ()
  | .error e => throw (.installCrontab e)

/-- The native units among the generated files. -/
def isNativeUnit (platform : Platform) (name : List Char) : Bool :=
  if platform = .systemd then
    (text ".service").isSuffixOf name || (text ".timer").isSuffixOf name
  else (text ".plist").isSuffixOf name

/-- Install one unit. -/
def installNativeUnit (host : Host) (root outputDir : Path) (file : List Char × List Char) :
    Io Unit :=
  let path := join root file.1
  writeWithMode host path (Text.replaceAll file.2 wrapperDirPlaceholder outputDir) 0o644
    (.writeNativeUnit path)

/-- Install all units. -/
def installNativeUnits (host : Host) (generated : Files) (root outputDir : Path)
    (platform : Platform) : Io Unit :=
  (generated.filter fun file => isNativeUnit platform file.1).forM
    (installNativeUnit host root outputDir)

/-- The launchd label of a job. -/
def launchdLabel (job : Job) : List Char :=
  text "com.symeraseme." ++ job.name.drop (text "symeraseme-").length

/-- Load a job. -/
def loadLaunchd (host : Host) (root : Path) (job : Job) : Io Unit := do
  let name := launchdLabel job ++ text ".plist"
  let path := join root name
  discard <| attempt host (.run (text "launchctl") [text "unload", path])
  discard <| perform host (.run (text "launchctl") [text "load", path]) (.loadLaunchdUnit name)

/-- Enable a job. -/
def enableSystemd (host : Host) (job : Job) : Io Unit := do
  let timer := job.name ++ text ".timer"
  discard <| perform host
    (.run (text "systemctl") [text "--user", text "enable", text "--now", timer])
    (.enableSystemdTimer timer)

/-- The commands after the units are written. -/
def activate (host : Host) (root : Path) (platform : Platform) : Io Unit := do
  if platform = .launchd then [Job.tick, .poll, .rescan].forM (loadLaunchd host root)
  else do
    discard <| perform host (.run (text "systemctl") [text "--user", text "daemon-reload"])
      .systemctlDaemonReload
    [Job.tick, .poll, .rescan].forM (enableSystemd host)

/-- Install units and start them. -/
def installNative (host : Host) (options : InstallOptions) (generated : Files) (outputDir : Path)
    (platform : Platform) : Io Unit := do
  let root ← installRoot host options platform
  discard <| perform host (.createDirAll root) .createNativeUnitDirectory
  installNativeUnits host generated root outputDir platform
  activate host root platform

/-- The configuration with the platform decided and a directory. -/
def installConfig (options : InstallOptions) (platform : Platform) : Config :=
  { options.config with
    platform := some platform
    outputDir := if options.config.outputDir = [] then text "./schedules"
      else options.config.outputDir }

/-- Legacy units are replaced only on request. -/
def refuseLegacy (options : InstallOptions) (legacy : List LegacyUnit) :
    Except SchedulerError Unit :=
  if legacy ≠ [] ∧ options.replaceLegacy = false then .error .legacyUnitsDetected else .ok ()

/-- The crontab, or the native units. -/
def installJobs (host : Host) (options : InstallOptions) (generated : Files) (outputDir : Path)
    (platform : Platform) : Io Unit :=
  if platform = .cron then installCron host generated outputDir
  else installNative host options generated outputDir platform

/-- Scans for legacy units, refuses unless replacement was requested, generates and writes the
wrappers, then installs the native units. -/
def install (host : Host) (options : InstallOptions) : Io InstallResult := do
  let platform ← resolvePlatform host options
  let config := installConfig options platform
  let legacy ← scanLegacyPythonUnits host options.homeDir platform
  refuseLegacy options legacy
  let generated ← generate host.around config
  let written ← writeFiles host config.outputDir generated
  legacy.forM (removeLegacyUnit host)
  installJobs host options generated config.outputDir platform
  pure
    { platform
      outputDir := config.outputDir
      files := written
      legacy
      replacementRequired := legacy ≠ [] }

end EraseMe.Scheduler
