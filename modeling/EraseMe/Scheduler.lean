import EraseMe.Library.Replace

/-!
# `scheduler`: the files of a schedule

`generate` makes the wrappers, the native unit definitions and the helper scripts of a schedule,
for cron, launchd or systemd.  A unit refers to its wrapper by a placeholder for the directory of
the wrappers; installation puts the directory there.

* `generate`, `Cron.generate`, `Launchd.generate`, `Systemd.generate`;
* `lexicallyClean`, the cleaning of paths that `write_files` uses;
* `isPythonSchedulerContent` and `isOwnGeneratedUnit`, which tell apart units of the Python era
  and units of this program.

All texts are lists of characters.
-/

namespace EraseMe.Scheduler

open Paths

/-- The characters of a literal. -/
def text (s : String) : List Char := s.toList

/-- A literal is `String.ofList` of its characters, so that this lists them without decoding. -/
theorem text_ofList (l : List Char) : text (String.ofList l) = l := String.toList_ofList

/-- Every line with its end. -/
def unlines (ls : List (List Char)) : List Char := ls.flatMap (· ++ ['\n'])

def wrapperDirPlaceholder : List Char := text "__WRAPPER_DIR__"

def legacyMarker : List Char := text "Generated by symeraseme generate-scheduler"

/-- A supported scheduler backend. -/
inductive Platform
  | cron
  | launchd
  | systemd
  deriving DecidableEq, Repr

/-- Parses a platform name case-insensitively. -/
def Platform.parse (value : List Char) : Option Platform :=
  let value := value.map Char.toLower
  if value = text "cron" then some .cron
  else if value = text "launchd" then some .launchd
  else if value = text "systemd" then some .systemd
  else none

/-- The schedule to generate. -/
structure Config where
  platform : Option Platform := none
  outputDir : Path := text "./schedules"
  tickHour : ℤ := 10
  tickMinute : ℤ := 0
  pollHours : List ℤ := [8, 12, 16, 20]
  projectDir : Path := []
  binaryPath : Path := []
  venvActivate : Path := []

/-- The kinds of failures. -/
inductive ErrorKind
  | notFound
  | isADirectory
  | other
  deriving DecidableEq, Repr

/-- A failure and its text. -/
structure IoError where
  kind : ErrorKind
  text : String
  deriving DecidableEq, Repr

/-- An error generating, writing or installing scheduler files. -/
inductive SchedulerError
  | unsupportedPlatformOperation (platform : List Char)
  | invalidTickTime
  | invalidPollHour (hour : ℤ)
  | resolveBinaryPath (source : IoError)
  | resolveProjectDirectory (source : IoError)
  | emptyOutputDirectory
  | resolveOutputDirectory (source : IoError)
  | createOutputDirectory (source : IoError)
  | invalidGeneratedFilename (name : List Char)
  | writeFile (path : Path) (source : IoError)
  | resolveHomeDirectory (source : IoError)
  | readLegacyUnit (path : Path) (source : IoError)
  | legacyUnitsDetected
  | removeLegacyUnit (path : Path) (source : IoError)
  | createNativeUnitDirectory (source : IoError)
  | writeNativeUnit (path : Path) (source : IoError)
  | loadLaunchdUnit (unit : List Char) (source : IoError)
  | systemctlDaemonReload (source : IoError)
  | enableSystemdTimer (unit : List Char) (source : IoError)
  | writeCronStaging (path : Path) (source : IoError)
  | installCrontab (source : IoError)
  deriving DecidableEq, Repr

/-- What the process finds around it. -/
structure Surroundings where
  platform : Platform
  currentExe : Except IoError Path
  workingDirectory : Except IoError Path
  currentDir : Except IoError Path

/-! ### Paths -/

/-- One component of `lexically_clean`: a `..` takes away a name before it, and nothing can be
above the root. -/
def cleanStep (out : List Component) (c : Component) : List Component :=
  match c with
  | .curDir => out
  | .parentDir =>
      match out.getLast? with
      | some (.normal _) => out.dropLast
      | some .rootDir => out
      | _ => out ++ [c]
  | c => out ++ [c]

/-- Lexically cleans a path the way Go's `filepath.Clean` does. -/
def lexicallyClean (path : Path) : Path :=
  let cleaned := ofComponents ((components path).foldl cleanStep [])
  if cleaned = [] then ['.'] else cleaned

/-- A name below the root. -/
def isSafeRelativeFilename (name : Path) : Bool :=
  if name = [] then false
  else if isAbsolute name then false
  else
    let clean := lexicallyClean name
    clean ≠ ['.'] ∧ clean ≠ ['.', '.'] ∧ (components clean).head? ≠ some .parentDir

/-! ### Texts -/

/-- A number as `{}` writes it. -/
def decimal (n : ℤ) : List Char :=
  if n < 0 then '-' :: Nat.toDigits 10 n.natAbs else Nat.toDigits 10 n.natAbs

/-- A number as `{:02}` writes it. -/
def decimal2 (n : ℤ) : List Char :=
  if (decimal n).length < 2 then '0' :: decimal n else decimal n

/-- A word in single quotes. -/
def shellQuote (value : List Char) : List Char :=
  '\'' :: (Text.replaceAll value ['\''] (text "'\\''") ++ ['\''])

/-- The script of a job. -/
def wrapper (command : List (List Char)) (projectDir venv : Path) : List Char :=
  text "#!/usr/bin/env bash\n" ++
  text "# Symaira EraseMe scheduled task wrapper\n" ++
  text "# Generated by symeraseme generate-scheduler (Go)\n" ++
  text "set -euo pipefail\n\n" ++
  (if venv = [] then [] else text "source " ++ shellQuote venv ++ text "\n\n") ++
  text "export SYMERASEME_HEADLESS=1\n" ++
  text "cd " ++ shellQuote projectDir ++ text "\n\nexec" ++
  command.flatMap (fun arg => ' ' :: shellQuote arg) ++ ['\n']

/-- The script of the poll. -/
def pollWrapper (binaryPath projectDir venv : Path) (pollHours : List ℤ) : List Char :=
  text "#!/usr/bin/env bash\n" ++
  text "# Symaira EraseMe scheduled inbox poll wrapper\n" ++
  text "# Generated by symeraseme generate-scheduler (Go)\n" ++
  text "set -euo pipefail\n\n" ++
  (if venv = [] then [] else text "source " ++ shellQuote venv ++ ['\n']) ++
  text "export SYMERASEME_HEADLESS=1\n" ++
  text "cd " ++ shellQuote projectDir ++ text "\n\n" ++
  text "CURRENT_HHMM=$(date +%H:%M)\n" ++
  text "case \"$CURRENT_HHMM\" in\n" ++
  ['|'].intercalate (pollHours.map fun hour => decimal2 hour ++ text ":00") ++
  text ")\n    exec " ++ shellQuote binaryPath ++
  text " poll-inbox --output json\n    ;;\nesac\n"

/-- The jobs of a schedule. -/
inductive Job
  | tick
  | poll
  | rescan
  deriving DecidableEq, Repr

def Job.name : Job → List Char
  | .tick => text "symeraseme-tick"
  | .poll => text "symeraseme-poll"
  | .rescan => text "symeraseme-rescan"

/-- The file of the wrapper. -/
def Job.script (job : Job) : List Char := job.name ++ text ".sh"

/-- Names and contents. -/
abbrev Files := List (List Char × List Char)

/-- `BTreeMap::insert`: the keys stay sorted, and a key that is there gets the new value. -/
def insertFile (files : Files) (name contents : List Char) : Files :=
  files.filter (·.1 < name) ++ (name, contents) :: files.filter (name < ·.1)

/-- The entries inserted one after the other. -/
def insertAll (entries files : Files) : Files :=
  entries.foldl (fun files entry => insertFile files entry.1 entry.2) files

/-! ### cron -/

namespace Cron

/-- The token the crontab render expands. -/
def wrapperToken : List Char := text "\x7bwrapper_dir\x7d"

/-- The lines of the table. -/
def cronTab (hour minute : ℤ) : List Char :=
  unlines [
    text "# Symaira EraseMe scheduled tasks",
    text "# Generated by symeraseme generate-scheduler (Go)",
    text "",
    text "# Tick (daily at " ++ decimal2 hour ++ [':'] ++ decimal2 minute ++ [')'],
    decimal minute ++ ' ' :: (decimal hour ++ text " * * * ") ++
      (wrapperToken ++ text "/symeraseme-tick.sh"),
    text "",
    text "# Poll inbox (hourly wrapper checks configured times)",
    text "0 * * * * " ++ (wrapperToken ++ text "/symeraseme-poll.sh"),
    text "",
    text "# Re-scan (quarterly on 1st of Jan, Apr, Jul, Oct)",
    decimal minute ++ ' ' :: (decimal hour ++ text " 1 1,4,7,10 * ") ++
      (wrapperToken ++ text "/symeraseme-rescan.sh"),
    text "",
    text "# End Symaira EraseMe scheduled tasks"]

def blockRemovalScript : List Char :=
  text "awk '\n  /^# Symaira EraseMe scheduled tasks$/ \x7b skip=1; next \x7d\n" ++
  text "  /^# End Symaira EraseMe scheduled tasks$/ \x7b skip=0; next \x7d\n" ++
  text "  skip \x7b next \x7d\n  \x7b print \x7d\n'"

def installScript : List Char :=
  text "#!/usr/bin/env bash\nset -euo pipefail\n" ++
  text "SCRIPT_DIR=\"$(cd \"$(dirname \"$0\")\" && pwd)\"\n" ++
  text "chmod +x \"$SCRIPT_DIR\"/*.sh\n" ++
  text "TEMP=$(mktemp)\n" ++
  text "trap 'rm -f \"$TEMP\"' EXIT\n" ++
  text "(crontab -l 2>/dev/null || true) | " ++ blockRemovalScript ++ text " > \"$TEMP\"\n" ++
  text "sed \"s|\x7bwrapper_dir\x7d|$SCRIPT_DIR|g\" \"$SCRIPT_DIR/crontab.txt\" >> \"$TEMP\"\n" ++
  text "crontab \"$TEMP\"\n" ++
  text "printf 'Crontab installed. Wrappers in: %s\\n' \"$SCRIPT_DIR\"\n"

def uninstallScript : List Char :=
  text "#!/usr/bin/env bash\nset -euo pipefail\n" ++
  text "TEMP=$(mktemp)\n" ++
  text "trap 'rm -f \"$TEMP\"' EXIT\n" ++
  text "(crontab -l 2>/dev/null || true) | " ++ blockRemovalScript ++ text " > \"$TEMP\"\n" ++
  text "crontab \"$TEMP\"\n" ++
  text "printf '%s\\n' 'Symaira EraseMe entries removed from crontab.'\n"

/-- The files in the order they are inserted. -/
def entries (cfg : Config) (binaryPath projectDir : Path) (pollHours : List ℤ) : Files :=
  let tick := [binaryPath, text "tick", text "--output", text "json"]
  [(text "symeraseme-tick.sh", wrapper tick projectDir cfg.venvActivate),
    (text "symeraseme-poll.sh", pollWrapper binaryPath projectDir cfg.venvActivate pollHours),
    (text "symeraseme-rescan.sh",
      wrapper (tick ++ [text "--dry-run"]) projectDir cfg.venvActivate),
    (text "install.sh", installScript),
    (text "uninstall.sh", uninstallScript),
    (text "crontab.txt", cronTab cfg.tickHour cfg.tickMinute)]

/-- The files for cron. -/
def generate (cfg : Config) (binaryPath projectDir : Path) (pollHours : List ℤ) : Files :=
  insertAll (entries cfg binaryPath projectDir pollHours) []

end Cron

/-! ### launchd -/

namespace Launchd

/-- A time of each day. -/
def calendar (hour minute : ℤ) : List Char :=
  text "    <dict>\n        <key>Hour</key>\n        <integer>" ++ decimal hour ++
  text "</integer>\n        <key>Minute</key>\n        <integer>" ++ decimal minute ++
  text "</integer>\n    </dict>"

/-- Four times a year. -/
def quarterly (hour minute : ℤ) : List Char :=
  ['\n'].intercalate ([1, 4, 7, 10].map fun month =>
    text "    <dict>\n        <key>Month</key>\n        <integer>" ++ decimal month ++
    text "</integer>\n        <key>Day</key>\n        <integer>1</integer>\n" ++
    text "        <key>Hour</key>\n        <integer>" ++ decimal hour ++
    text "</integer>\n        <key>Minute</key>\n        <integer>" ++ decimal minute ++
    text "</integer>\n    </dict>")

/-- The XML 1.0 legal character range. -/
def isXmlCharacter (ch : Char) : Bool :=
  let code := ch.toNat
  code = 0x09 ∨ code = 0x0A ∨ code = 0x0D ∨ (0x20 ≤ code ∧ code ≤ 0xD7FF) ∨
    (0xE000 ≤ code ∧ code ≤ 0xFFFD) ∨ (0x10000 ≤ code ∧ code ≤ 0x10FFFF)

/-- Escapes text exactly as Go's `encoding/xml.EscapeText` does. -/
def plistEscape (value : List Char) : List Char :=
  value.flatMap fun ch =>
    if ch = '"' then text "&#34;"
    else if ch = '\'' then text "&#39;"
    else if ch = '&' then text "&amp;"
    else if ch = '<' then text "&lt;"
    else if ch = '>' then text "&gt;"
    else if ch = '\t' then text "&#x9;"
    else if ch = '\n' then text "&#xA;"
    else if ch = '\r' then text "&#xD;"
    else if isXmlCharacter ch then [ch]
    else [Char.ofNat 0xFFFD]

/-- A property list. -/
def plist (label wrapperPath intervals : List Char) (array : Bool) : List Char :=
  let intervals :=
    if array then text "    <array>\n" ++ intervals ++ text "\n    </array>"
    else text "    " ++ intervals
  let label := plistEscape label
  let wrapperPath := plistEscape wrapperPath
  unlines [
    text "<?xml version=\"1.0\" encoding=\"UTF-8\"?>",
    text "<!DOCTYPE plist PUBLIC \"-//Apple//DTD PLIST 1.0//EN\"",
    text "  \"http://www.apple.com/DTDs/PropertyList-1.0.dtd\">",
    text "<!-- " ++ legacyMarker ++ text " (Go) -->",
    text "<plist version=\"1.0\">",
    text "<dict>",
    text "    <key>Label</key>",
    text "    <string>" ++ label ++ text "</string>",
    text "    <key>ProgramArguments</key>",
    text "    <array>",
    text "        <string>/bin/bash</string>",
    text "        <string>" ++ wrapperPath ++ text "</string>",
    text "    </array>",
    text "    <key>StartCalendarInterval</key>",
    intervals,
    text "    <key>StandardOutPath</key>",
    text "    <string>/tmp/" ++ label ++ text ".log</string>",
    text "    <key>StandardErrorPath</key>",
    text "    <string>/tmp/" ++ label ++ text ".err</string>",
    text "    <key>EnvironmentVariables</key>",
    text "    <dict>",
    text "        <key>SYMERASEME_HEADLESS</key>",
    text "        <string>1</string>",
    text "    </dict>",
    text "    <key>RunAtLoad</key>",
    text "    <false/>",
    text "    <key>KeepAlive</key>",
    text "    <false/>",
    text "</dict>",
    text "</plist>"]

def installScript : List Char :=
  text "#!/usr/bin/env bash\nset -euo pipefail\n" ++
  text "SCRIPT_DIR=\"$(cd \"$(dirname \"$0\")\" && pwd)\"\n" ++
  text "DEST=\"$HOME/Library/LaunchAgents\"\n" ++
  text "mkdir -p \"$DEST\"\n" ++
  text "for plist in \"$SCRIPT_DIR\"/*.plist; do\n" ++
  text "  [ -f \"$plist\" ] || continue\n" ++
  text "  name=$(basename \"$plist\")\n" ++
  text "  sed \"s|__WRAPPER_DIR__|$SCRIPT_DIR|g\" \"$plist\" > \"$DEST/$name\"\n" ++
  text "  chmod 644 \"$DEST/$name\"\n" ++
  text "  launchctl unload \"$DEST/$name\" 2>/dev/null || true\n" ++
  text "  launchctl load \"$DEST/$name\"\n" ++
  text "done\n" ++
  text "chmod +x \"$SCRIPT_DIR\"/*.sh\n" ++
  text "printf '%s\\n' 'launchd jobs installed.'\n"

def uninstallScript : List Char :=
  text "#!/usr/bin/env bash\nset -euo pipefail\n" ++
  text "SCRIPT_DIR=\"$(cd \"$(dirname \"$0\")\" && pwd)\"\n" ++
  text "for plist in \"$SCRIPT_DIR\"/*.plist; do\n" ++
  text "  [ -f \"$plist\" ] || continue\n" ++
  text "  name=$(basename \"$plist\")\n" ++
  text "  dest=\"$HOME/Library/LaunchAgents/$name\"\n" ++
  text "  launchctl unload \"$dest\" 2>/dev/null || true\n" ++
  text "  rm -f \"$dest\"\n" ++
  text "done\n" ++
  text "printf '%s\\n' 'launchd jobs uninstalled.'\n"

/-- The files in the order they are inserted. -/
def entries (cfg : Config) (binaryPath projectDir : Path) (pollHours : List ℤ) : Files :=
  let pollIntervals := pollHours.map fun hour => calendar hour 0
  let tick := [binaryPath, text "tick", text "--output", text "json"]
  let poll := [binaryPath, text "poll-inbox", text "--output", text "json"]
  [(text "symeraseme-tick.sh", wrapper tick projectDir cfg.venvActivate),
    (text "com.symeraseme.tick.plist",
      plist (text "com.symeraseme.tick") (wrapperDirPlaceholder ++ text "/symeraseme-tick.sh")
        (calendar cfg.tickHour cfg.tickMinute) false),
    (text "symeraseme-poll.sh", wrapper poll projectDir cfg.venvActivate),
    (text "com.symeraseme.poll.plist",
      plist (text "com.symeraseme.poll") (wrapperDirPlaceholder ++ text "/symeraseme-poll.sh")
        (['\n'].intercalate pollIntervals) true),
    (text "symeraseme-rescan.sh", wrapper tick projectDir cfg.venvActivate),
    (text "com.symeraseme.rescan.plist",
      plist (text "com.symeraseme.rescan")
        (wrapperDirPlaceholder ++ text "/symeraseme-rescan.sh")
        (quarterly cfg.tickHour cfg.tickMinute) true),
    (text "install.sh", installScript),
    (text "uninstall.sh", uninstallScript)]

/-- The files for launchd. -/
def generate (cfg : Config) (binaryPath projectDir : Path) (pollHours : List ℤ) : Files :=
  insertAll (entries cfg binaryPath projectDir pollHours) []

end Launchd

/-! ### systemd -/

namespace Systemd

/-- A service. -/
def service (description wrapperPath : List Char) : List Char :=
  unlines [
    text "[Unit]",
    text "# " ++ legacyMarker ++ text " (Go)",
    text "Description=" ++ description,
    text "After=network-online.target",
    text "",
    text "[Service]",
    text "Type=oneshot",
    text "ExecStart=/bin/bash \"" ++ wrapperPath ++ text "\"",
    text "Environment=SYMERASEME_HEADLESS=1",
    text "StandardOutput=journal",
    text "StandardError=journal",
    text "",
    text "[Install]",
    text "WantedBy=default.target"]

/-- A timer. -/
def timer (description serviceName calendar : List Char) : List Char :=
  unlines [
    text "[Unit]",
    text "# " ++ legacyMarker ++ text " (Go)",
    text "Description=" ++ description,
    text "",
    text "[Timer]",
    text "Unit=" ++ serviceName ++ text ".service",
    text "OnCalendar=" ++ calendar,
    text "Persistent=true",
    text "",
    text "[Install]",
    text "WantedBy=timers.target"]

def installScript : List Char :=
  text "#!/usr/bin/env bash\nset -euo pipefail\n" ++
  text "SCRIPT_DIR=\"$(cd \"$(dirname \"$0\")\" && pwd)\"\n" ++
  text "DEST=\"$\x7bXDG_CONFIG_HOME:-$HOME/.config\x7d/systemd/user\"\n" ++
  text "mkdir -p \"$DEST\"\n" ++
  text "chmod +x \"$SCRIPT_DIR\"/*.sh\n" ++
  text "for unit in \"$SCRIPT_DIR\"/*.service \"$SCRIPT_DIR\"/*.timer; do\n" ++
  text "  [ -f \"$unit\" ] || continue\n" ++
  text "  name=$(basename \"$unit\")\n" ++
  text "  sed \"s|__WRAPPER_DIR__|$SCRIPT_DIR|g\" \"$unit\" > \"$DEST/$name\"\n" ++
  text "done\n" ++
  text "systemctl --user daemon-reload\n" ++
  text "for timer in symeraseme-tick symeraseme-poll symeraseme-rescan; do\n" ++
  text "  systemctl --user enable --now \"$timer.timer\"\n" ++
  text "done\n" ++
  text "printf '%s\\n' 'Systemd timers installed and enabled.'\n"

def uninstallScript : List Char :=
  text "#!/usr/bin/env bash\nset -euo pipefail\n" ++
  text "SCRIPT_DIR=\"$(cd \"$(dirname \"$0\")\" && pwd)\"\n" ++
  text "DEST=\"$\x7bXDG_CONFIG_HOME:-$HOME/.config\x7d/systemd/user\"\n" ++
  text "for timer in symeraseme-tick symeraseme-poll symeraseme-rescan; do\n" ++
  text "  systemctl --user disable --now \"$timer.timer\" 2>/dev/null || true\n" ++
  text "done\n" ++
  text "for unit in \"$SCRIPT_DIR\"/*.service \"$SCRIPT_DIR\"/*.timer; do\n" ++
  text "  [ -f \"$unit\" ] || continue\n" ++
  text "  rm -f \"$DEST/$(basename \"$unit\")\"\n" ++
  text "done\n" ++
  text "systemctl --user daemon-reload\n" ++
  text "printf '%s\\n' 'Systemd timers uninstalled.'\n"

/-- The files in the order they are inserted.  Poll hours do not vary them. -/
def entries (cfg : Config) (binaryPath projectDir : Path) : Files :=
  let tick := [binaryPath, text "tick", text "--output", text "json"]
  let poll := [binaryPath, text "poll-inbox", text "--output", text "json"]
  [(text "symeraseme-tick.sh", wrapper tick projectDir cfg.venvActivate),
    (text "symeraseme-tick.service",
      service (text "Symaira EraseMe daily tick")
        (wrapperDirPlaceholder ++ text "/symeraseme-tick.sh")),
    (text "symeraseme-tick.timer",
      timer (text "Symaira EraseMe daily tick") (text "symeraseme-tick")
        (text "Daily-" ++ decimal2 cfg.tickHour ++ [':'] ++ decimal2 cfg.tickMinute)),
    (text "symeraseme-poll.sh", wrapper poll projectDir cfg.venvActivate),
    (text "symeraseme-poll.service",
      service (text "Symaira EraseMe hourly inbox poll")
        (wrapperDirPlaceholder ++ text "/symeraseme-poll.sh")),
    (text "symeraseme-poll.timer",
      timer (text "Symaira EraseMe hourly inbox poll") (text "symeraseme-poll") (text "Hourly")),
    (text "symeraseme-rescan.sh", wrapper tick projectDir cfg.venvActivate),
    (text "symeraseme-rescan.service",
      service (text "Symaira EraseMe quarterly re-scan")
        (wrapperDirPlaceholder ++ text "/symeraseme-rescan.sh")),
    (text "symeraseme-rescan.timer",
      timer (text "Symaira EraseMe quarterly re-scan") (text "symeraseme-rescan")
        (text "Quarterly")),
    (text "install.sh", installScript),
    (text "uninstall.sh", uninstallScript)]

/-- The files for systemd. -/
def generate (cfg : Config) (binaryPath projectDir : Path) : Files :=
  insertAll (entries cfg binaryPath projectDir) []

end Systemd

/-! ### All platforms -/

/-- An explicit path, or the path of the running executable. -/
def resolveBinaryPath (around : Surroundings) (explicit : Path) : Except SchedulerError Path :=
  if explicit ≠ [] then .ok explicit
  else do
    let path ← around.currentExe.mapError .resolveBinaryPath
    if isAbsolute path then .ok (lexicallyClean path)
    else do
      let dir ← around.workingDirectory.mapError .resolveBinaryPath
      .ok (lexicallyClean (join dir path))

/-- The directory of the project. -/
def resolveProjectDir (around : Surroundings) (explicit : Path) : Except SchedulerError Path :=
  if explicit = [] then around.workingDirectory.mapError .resolveProjectDirectory
  else .ok explicit

/-- An hour and a minute. -/
def checkTickTime (hour minute : ℤ) : Except SchedulerError Unit :=
  if hour < 0 ∨ hour > 23 ∨ minute < 0 ∨ minute > 59 then .error .invalidTickTime else .ok ()

/-- The first hour that is not an hour of a day is reported. -/
def checkPollHours (hours : List ℤ) : Except SchedulerError Unit :=
  match hours.find? fun hour => ¬ (0 ≤ hour ∧ hour ≤ 23) with
  | some hour => .error (.invalidPollHour hour)
  | none => .ok ()

/-- Creates deterministic scheduler files keyed by their relative filename. -/
def generate (around : Surroundings) (cfg : Config) : Except SchedulerError Files := do
  let platform := cfg.platform.getD around.platform
  checkTickTime cfg.tickHour cfg.tickMinute
  let pollHours := if cfg.pollHours = [] then [8, 12, 16, 20] else cfg.pollHours
  checkPollHours pollHours
  let binaryPath ← resolveBinaryPath around cfg.binaryPath
  let projectDir ← resolveProjectDir around cfg.projectDir
  match platform with
  | .cron => .ok (Cron.generate cfg binaryPath projectDir pollHours)
  | .launchd => .ok (Launchd.generate cfg binaryPath projectDir pollHours)
  | .systemd => .ok (Systemd.generate cfg binaryPath projectDir)

/-! ### Units of the Python era -/

/-- Lower case one character at a time.  Of the other characters only the dotted capital I and
the Kelvin sign become letters that the markers contain. -/
def goToLower (c : Char) : Char :=
  if c.toNat = 0x130 then 'i' else if c.toNat = 0x212A then 'k' else c.toLower

def contains (content marker : List Char) : Bool := content.tails.any marker.isPrefixOf

/-- Whether a content carries a marker of the Python scheduler, or the marker comment without the
suffix that this program always adds. -/
def isPythonSchedulerContent (content : List Char) : Bool :=
  let lower := content.map goToLower
  [text "python", text "site-packages", text "symeraseme.core.scheduler", text "uv run",
      text "venv/bin/activate"].any (contains lower) ||
    (contains content legacyMarker && !contains content (legacyMarker ++ text " (Go)"))

/-- Whether a unit file was written by this program. -/
def isOwnGeneratedUnit (content : List Char) : Bool :=
  contains content (legacyMarker ++ text " (Go)")

end EraseMe.Scheduler
