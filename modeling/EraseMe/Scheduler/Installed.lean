import EraseMe.Scheduler.Cleaning
import EraseMe.Scheduler.Wrappers

/-!
# What an installation leaves

The spec lemmas of `install` and its parts, and the main result: an installation that succeeds
leaves definitions that run the wrappers exactly when the output directory can be embedded in the
format of the platform.
-/

namespace EraseMe.Scheduler

open Paths

/-! ### Spec lemmas -/

section Spec

variable {α β : Type} {host : Host} {log log' : List Event}

theorem bind_ok {x : Io α} {f : α → Io β} {b : β} :
    (x >>= f) log = .ok (b, log') ↔
      ∃ a mid, x log = .ok (a, mid) ∧ f a mid = .ok (b, log') := by
  change (x log >>= fun p => f p.1 p.2) = _ ↔ _
  rw [Result.bind_eq_ok]
  exact ⟨fun ⟨⟨a, mid⟩, h⟩ => ⟨a, mid, h⟩, fun ⟨a, mid, h⟩ => ⟨(a, mid), h⟩⟩

theorem pure_ok {a b : α} : (pure a : Io α) log = .ok (b, log') ↔ a = b ∧ log = log' := by
  change Except.ok (a, log) = _ ↔ _
  simp

theorem throw_ok {e : SchedulerError} {b : α} :
    (throw e : Io α) log = .ok (b, log') ↔ False := by
  change Except.error e = _ ↔ _
  simp

theorem lift_ok {e : Except SchedulerError α} {b : α} :
    (liftM e : Io α) log = .ok (b, log') ↔ e = .ok b ∧ log = log' := by
  cases e with
  | error e =>
    change Except.error e = _ ↔ _
    simp
  | ok a =>
    change Except.ok (a, log) = _ ↔ _
    simp

theorem attempt_ok {op : Op} {r : Except IoError Reply} :
    attempt host op log = .ok (r, log') ↔
      host.answer log op = r ∧ log ++ [(op, r.isOk)] = log' := by
  simp only [attempt, Except.ok.injEq, Prod.mk.injEq]
  constructor
  · rintro ⟨rfl, rfl⟩
    exact ⟨rfl, rfl⟩
  · rintro ⟨rfl, rfl⟩
    exact ⟨rfl, rfl⟩

theorem perform_ok {op : Op} {wrap : IoError → SchedulerError} {r : Reply}
    (h : perform host op wrap log = .ok (r, log')) : log' = log ++ [(op, true)] := by
  obtain ⟨answer, mid, hattempt, hrest⟩ := bind_ok.1 h
  obtain ⟨-, rfl⟩ := attempt_ok.1 hattempt
  cases answer with
  | ok reply => exact (pure_ok.1 hrest).2.symm
  | error e => exact (throw_ok.1 hrest).elim

theorem discard_ok {x : Io α} {u : Unit} (h : (discard x : Io Unit) log = .ok (u, log')) :
    ∃ a, x log = .ok (a, log') := by
  change (x >>= fun _ => pure ()) log = _ at h
  obtain ⟨a, mid, hx, hrest⟩ := bind_ok.1 h
  obtain ⟨-, rfl⟩ := pure_ok.1 hrest
  exact ⟨a, hx⟩

theorem writeWithMode_ok {path : Path} {contents : List Char} {mode : ℕ}
    {wrap : IoError → SchedulerError} {u : Unit}
    (h : writeWithMode host path contents mode wrap log = .ok (u, log')) :
    ∃ b mode', log' = log ++ [(.metadata path, b), (.replaceFile path contents mode', true)] := by
  obtain ⟨answer, mid, hattempt, hrest⟩ := bind_ok.1 h
  obtain ⟨-, rfl⟩ := attempt_ok.1 hattempt
  have hreplace : ∀ {m}, (discard (perform host (.replaceFile path contents m) wrap) : Io Unit)
      (log ++ [(.metadata path, answer.isOk)]) = .ok (u, log') →
      ∃ b mode', log' = log ++ [(.metadata path, b), (.replaceFile path contents mode', true)] := by
    intro m hm
    obtain ⟨r, hr⟩ := discard_ok hm
    refine ⟨answer.isOk, m, ?_⟩
    rw [perform_ok hr, List.append_assoc]
    rfl
  cases answer with
  | ok reply => exact hreplace hrest
  | error e =>
    dsimp only at hrest
    split_ifs at hrest
    · exact hreplace hrest
    · change Except.error _ = _ at hrest
      cases hrest

theorem writeFile_ok {root path : Path} {file : List Char × List Char}
    (h : writeFile host root file log = .ok (path, log')) :
    path = join root (lexicallyClean file.1) := by
  obtain ⟨u, mid, -, hrest⟩ := bind_ok.1 h
  exact (pure_ok.1 hrest).1.symm

theorem mapM_writeFile_ok {root : Path} {files : Files} {paths : List Path}
    (h : files.mapM (writeFile host root) log = .ok (paths, log')) :
    paths = files.map fun file => join root (lexicallyClean file.1) := by
  induction files generalizing log log' paths with
  | nil => exact (pure_ok.1 h).1.symm
  | cons file files ih =>
    rw [List.mapM_cons] at h
    obtain ⟨path, mid, hfile, h⟩ := bind_ok.1 h
    obtain ⟨rest, mid', hfiles, h⟩ := bind_ok.1 h
    rw [← (pure_ok.1 h).1, writeFile_ok hfile, ih hfiles, List.map_cons]

/-- The paths of the files, all names accepted, below the root. -/
theorem writeFiles_eq_ok {outputDir : Path} {files : Files} {paths : List Path}
    (h : writeFiles host outputDir files log = .ok (paths, log')) :
    ∃ root, outputRoot host.around outputDir = .ok root ∧
      (∀ file ∈ files, isSafeRelativeFilename file.1 = true) ∧
      paths = files.map fun file => join root (lexicallyClean file.1) := by
  unfold writeFiles at h
  split_ifs at h
  · change Except.error _ = _ at h
    cases h
  · obtain ⟨root, mid, hlift, h⟩ := bind_ok.1 h
    obtain ⟨hroot, rfl⟩ := lift_ok.1 hlift
    obtain ⟨_, mid, -, h⟩ := bind_ok.1 h
    cases hfind : files.find? fun file => !isSafeRelativeFilename file.1 with
    | some file =>
      simp only [hfind] at h
      exact (throw_ok.1 h).elim
    | none =>
      simp only [hfind] at h
      refine ⟨root, hroot, fun file hfile => ?_, mapM_writeFile_ok h⟩
      simpa using List.find?_eq_none.1 hfind file hfile

/-! ### The machine after a part of the installation -/

variable {m : Machine}

theorem after_append (a b : List Event) : m.after (a ++ b) = (m.after a).after b :=
  List.foldl_append

/-- A command leaves the files as they are. -/
theorem files_apply_run (m : Machine) (name : List Char) (args : List (List Char)) (b : Bool) :
    (m.apply (.run name args, b)).files = m.files := by
  unfold Machine.apply
  split
  all_goals first
    | rfl
    | (next heq => cases heq)
    | (split_ifs <;> rfl)

/-- Events that leave the files as they are. -/
def Commands (events : List Event) : Prop := ∀ e ∈ events, ∃ name args b, e = (.run name args, b)

theorem files_after_commands {events : List Event} (h : Commands events) (m : Machine) :
    (m.after events).files = m.files := by
  induction events generalizing m with
  | nil => rfl
  | cons e events ih =>
    obtain ⟨name, args, b, rfl⟩ := h e List.mem_cons_self
    have hrest := ih (fun e he => h e (List.mem_cons_of_mem _ he)) (m.apply (.run name args, b))
    exact hrest.trans (files_apply_run m name args b)

theorem commands_append {a b : List Event} (ha : Commands a) (hb : Commands b) :
    Commands (a ++ b) := by
  intro e he
  rcases List.mem_append.1 he with he | he
  · exact ha e he
  · exact hb e he

theorem commands_singleton (name : List Char) (args : List (List Char)) (b : Bool) :
    Commands [(.run name args, b)] := by
  intro e he
  exact ⟨name, args, b, List.mem_singleton.1 he⟩

/-- A loop of commands is a run of commands. -/
theorem forM_commands {f : Job → Io Unit} {jobs : List Job} {u : Unit}
    (hf : ∀ job log u log', f job log = .ok (u, log') →
      ∃ events, Commands events ∧ log' = log ++ events)
    (h : jobs.forM f log = .ok (u, log')) : ∃ events, Commands events ∧ log' = log ++ events := by
  induction jobs generalizing log with
  | nil =>
    obtain ⟨-, rfl⟩ := pure_ok.1 h
    exact ⟨[], by simp [Commands], (List.append_nil _).symm⟩
  | cons job jobs ih =>
    obtain ⟨v, mid, hjob, hjobs⟩ := bind_ok.1 h
    obtain ⟨a, ha, rfl⟩ := hf job log v mid hjob
    obtain ⟨b, hb, rfl⟩ := ih hjobs
    exact ⟨a ++ b, commands_append ha hb, List.append_assoc _ _ _⟩

theorem activate_ok {root : Path} {platform : Platform} {u : Unit}
    (h : activate host root platform log = .ok (u, log')) :
    ∃ events, Commands events ∧ log' = log ++ events := by
  unfold activate at h
  split_ifs at h
  · refine forM_commands (fun job log u log' hjob => ?_) h
    obtain ⟨_, mid, hunload, hload⟩ := bind_ok.1 hjob
    obtain ⟨_, hunload⟩ := discard_ok hunload
    obtain ⟨-, rfl⟩ := attempt_ok.1 hunload
    obtain ⟨_, hload⟩ := discard_ok hload
    rw [perform_ok hload]
    exact ⟨_, commands_append (commands_singleton _ _ _) (commands_singleton _ _ _),
      List.append_assoc _ _ _⟩
  · obtain ⟨_, mid, hreload, hjobs⟩ := bind_ok.1 h
    obtain ⟨_, hreload⟩ := discard_ok hreload
    have hmid := perform_ok hreload
    obtain ⟨events, hevents, rfl⟩ := forM_commands (fun job log u log' hjob => by
      obtain ⟨_, henable⟩ := discard_ok hjob
      rw [perform_ok henable]
      exact ⟨_, commands_singleton _ _ _, rfl⟩) hjobs
    rw [hmid]
    exact ⟨_, commands_append (commands_singleton _ _ _) hevents, List.append_assoc _ _ _⟩

/-- A unit is written under its name, with the directory in it. -/
theorem installNativeUnit_ok {root outputDir : Path} {file : List Char × List Char} {u : Unit}
    (h : installNativeUnit host root outputDir file log = .ok (u, log')) (path : Path) :
    (m.after log').files path = if path = join root file.1 then
      some (Text.replaceAll file.2 wrapperDirPlaceholder outputDir)
    else (m.after log).files path := by
  obtain ⟨b, mode, rfl⟩ := writeWithMode_ok h
  rw [after_append]
  have hmetadata : ∀ m : Machine, m.apply (.metadata (join root file.1), b) = m := by
    intro m
    cases b <;> rfl
  simp only [Machine.after, List.foldl_cons, List.foldl_nil, hmetadata]
  simp only [Machine.apply, Function.update_apply]

/-- Every unit is there after the loop. -/
theorem forM_installNativeUnit_ok {root outputDir : Path} {files : Files} {u : Unit}
    (hsimple : ∀ file ∈ files, Simple file.1) (hnodup : (files.map (·.1)).Nodup)
    (h : files.forM (installNativeUnit host root outputDir) log = .ok (u, log')) :
    (∀ file ∈ files, (m.after log').files (join root file.1) =
      some (Text.replaceAll file.2 wrapperDirPlaceholder outputDir)) ∧
    ∀ path, (∀ file ∈ files, path ≠ join root file.1) →
      (m.after log').files path = (m.after log).files path := by
  induction files generalizing log with
  | nil =>
    obtain ⟨-, rfl⟩ := pure_ok.1 h
    exact ⟨by simp, fun _ _ => rfl⟩
  | cons file files ih =>
    obtain ⟨v, mid, hfile, hfiles⟩ := bind_ok.1 h
    rw [List.map_cons, List.nodup_cons] at hnodup
    have hone := installNativeUnit_ok (m := m) hfile
    obtain ⟨hall, hother⟩ := ih (fun f hf => hsimple f (List.mem_cons_of_mem _ hf)) hnodup.2 hfiles
    have hne : ∀ f ∈ files, join root file.1 ≠ join root f.1 := by
      intro f hf heq
      have hname := join_injective (hsimple file List.mem_cons_self)
        (hsimple f (List.mem_cons_of_mem _ hf)) heq
      exact hnodup.1 (hname ▸ List.mem_map_of_mem hf)
    constructor
    · intro f hf
      rcases List.mem_cons.1 hf with rfl | hf
      · rw [hother _ hne, hone, if_pos rfl]
      · exact hall f hf
    · intro path hpath
      rw [hother path fun f hf => hpath f (List.mem_cons_of_mem _ hf), hone,
        if_neg (hpath file List.mem_cons_self)]

theorem getLast?_join (p : Path) {q : Path} (hq : q ≠ []) :
    (join p q).getLast? = q.getLast? := by
  unfold join
  split_ifs
  · rfl
  · rw [List.getLast?_append_of_ne_nil _ hq]
  · rw [List.getLast?_append_of_ne_nil _ (List.cons_ne_nil _ _), List.getLast?_cons_of_ne_nil hq]

/-- A staging path is no option of the command. -/
theorem staging_ne_list (dir pre : Path) (n : ℕ) :
    join dir (pre ++ Nat.toDigits 10 n) ≠ text "-l" := by
  have hdigits : Nat.toDigits 10 n ≠ [] := Nat.toDigits_ne_nil
  intro heq
  have hlast := congrArg List.getLast? heq
  rw [getLast?_join dir (List.append_ne_nil_of_right_ne_nil _ hdigits),
    List.getLast?_append_of_ne_nil _ hdigits,
    show (text "-l").getLast? = some 'l' by decide] at hlast
  have hmem : 'l' ∈ Nat.toDigits 10 n := List.mem_of_getLast? hlast
  cases Nat.isDigit_of_mem_toDigits (by decide) (by decide) hmem

/-- The table that is installed. -/
theorem installCron_ok {generated : Files} {outputDir : Path} {u : Unit}
    (h : installCron host generated outputDir log = .ok (u, log')) : ∃ existing,
    (m.after log').crontab =
      updatedTable existing ((lookupFile generated (text "crontab.txt")).getD []) outputDir := by
  obtain ⟨answer, mid, hlist, h⟩ := bind_ok.1 h
  obtain ⟨-, rfl⟩ := attempt_ok.1 hlist
  obtain ⟨staging, mid, hstaging, h⟩ := bind_ok.1 h
  obtain ⟨_, mid', hwrite, h⟩ := bind_ok.1 h
  obtain ⟨_, hwrite⟩ := discard_ok hwrite
  have hmid' := perform_ok hwrite
  obtain ⟨result, mid'', hrun, h⟩ := bind_ok.1 h
  obtain ⟨-, rfl⟩ := attempt_ok.1 hrun
  obtain ⟨_, last, hremove, h⟩ := bind_ok.1 h
  obtain ⟨_, hremove⟩ := discard_ok hremove
  obtain ⟨-, rfl⟩ := attempt_ok.1 hremove
  have hname : staging ≠ text "-l" := by
    obtain ⟨events, _, hget, hstaging⟩ := bind_ok.1 hstaging
    obtain ⟨_, _, -, hstaging⟩ := bind_ok.1 hstaging
    rw [← (pure_ok.1 hstaging).1]
    exact staging_ne_list _ _ _
  cases result with
  | error e => exact (throw_ok.1 h).elim
  | ok reply =>
    obtain ⟨-, rfl⟩ := pure_ok.1 h
    refine ⟨(answer.toOption.getD {}).text, ?_⟩
    have hremove : ∀ (m : Machine) b, (m.apply (.removeFile staging, b)).crontab = m.crontab := by
      intro m b
      cases b <;> rfl
    rw [after_append, after_append, hmid', after_append,
      show (Except.ok reply : Except IoError Reply).isOk = true from rfl]
    simp only [Machine.after, List.foldl_cons, List.foldl_nil, hremove]
    simp [Machine.apply, hname]

end Spec

/-! ### The generated files -/

/-- Inserting names that are not there puts the files in some order. -/
theorem insertFile_perm {files : Files} {name contents : List Char}
    (hname : ∀ f ∈ files, f.1 ≠ name) :
    (insertFile files name contents).Perm ((name, contents) :: files) := by
  have hgt : files.filter (fun f => name < f.1) = files.filter (fun f => !decide (f.1 < name)) := by
    refine List.filter_congr fun f hf => ?_
    rcases lt_trichotomy f.1 name with h | h | h
    · simp [h, not_lt.2 h.le]
    · exact absurd h (hname f hf)
    · simp [h, not_lt.2 h.le]
  rw [insertFile, hgt]
  exact List.perm_middle.trans ((List.filter_append_perm _ _).cons _)

theorem insertAll_perm {entries files : Files}
    (hnodup : ((entries ++ files).map (·.1)).Nodup) :
    (insertAll entries files).Perm (entries ++ files) := by
  induction entries generalizing files with
  | nil => exact List.Perm.refl _
  | cons entry entries ih =>
    have hperm : (insertFile files entry.1 entry.2).Perm (entry :: files) := by
      refine insertFile_perm fun f hf heq => ?_
      rw [List.cons_append, List.map_cons, List.nodup_cons] at hnodup
      exact hnodup.1 (heq ▸ List.mem_map_of_mem (List.mem_append_right _ hf))
    have hmiddle : (entries ++ insertFile files entry.1 entry.2).Perm (entry :: (entries ++ files)) :=
      (hperm.append_left entries).trans List.perm_middle
    exact (ih ((hmiddle.map _).nodup_iff.2 hnodup)).trans hmiddle

theorem lookupFile_of_mem {files : Files} {name contents : List Char}
    (hnodup : (files.map (·.1)).Nodup) (hmem : (name, contents) ∈ files) :
    lookupFile files name = some contents := by
  induction files with
  | nil => cases hmem
  | cons file files ih =>
    rw [List.map_cons, List.nodup_cons] at hnodup
    rcases List.mem_cons.1 hmem with rfl | hmem
    · simp [lookupFile]
    · have hne : file.1 ≠ name := fun heq =>
        hnodup.1 (heq ▸ List.mem_map_of_mem (f := fun f : List Char × List Char => f.1) hmem)
      have hrest := ih hnodup.2 hmem
      rw [lookupFile, List.find?_cons_of_neg (by simpa using hne)]
      exact hrest

/-- The contents of a job's unit. -/
def unitContents (cfg : Config) (pollHours : List ℤ) (job : Job) : Platform → List Char
  | .cron => []
  | .launchd =>
      let path := wrapperDirPlaceholder ++ '/' :: job.script
      match job with
      | .tick => Launchd.plist (launchdLabel job) path
          (Launchd.calendar cfg.tickHour cfg.tickMinute) false
      | .poll => Launchd.plist (launchdLabel job) path
          (['\n'].intercalate (pollHours.map fun hour => Launchd.calendar hour 0)) true
      | .rescan => Launchd.plist (launchdLabel job) path
          (Launchd.quarterly cfg.tickHour cfg.tickMinute) true
  | .systemd => Systemd.service job.description (wrapperDirPlaceholder ++ '/' :: job.script)

/-- What the rest of the development needs to know about generated files. -/
structure Generated (platform : Platform) (cfg : Config) (files : Files) : Prop where
  nodup : (files.map (·.1)).Nodup
  simple : ∀ file ∈ files, Simple file.1
  script : ∀ job : Job, ∃ contents, (job.script, contents) ∈ files
  table : platform = .cron → (text "crontab.txt", Cron.cronTab cfg.tickHour cfg.tickMinute) ∈ files
  unit : platform ≠ .cron → ∃ pollHours, ∀ job,
    (unitName platform job, unitContents cfg pollHours job platform) ∈ files
  hour : 0 ≤ cfg.tickHour
  minute : 0 ≤ cfg.tickMinute

/-- From the entries that a platform inserts. -/
theorem generated_of_entries {platform : Platform} {cfg : Config} {entries : Files}
    (names : List (List Char)) (hnames : entries.map (·.1) = names) (hnodup : names.Nodup)
    (hsimple : ∀ name ∈ names, Simple name)
    (hscript : ∀ job : Job, job.script ∈ names)
    (htable : platform = .cron →
      (text "crontab.txt", Cron.cronTab cfg.tickHour cfg.tickMinute) ∈ entries)
    (hunit : platform ≠ .cron → ∃ pollHours, ∀ job,
      (unitName platform job, unitContents cfg pollHours job platform) ∈ entries)
    (hhour : 0 ≤ cfg.tickHour) (hminute : 0 ≤ cfg.tickMinute) :
    Generated platform cfg (insertAll entries []) := by
  have hperm : (insertAll entries []).Perm entries := by
    have hall : (insertAll entries []).Perm (entries ++ []) :=
      insertAll_perm (by rw [List.append_nil, hnames]; exact hnodup)
    rwa [List.append_nil] at hall
  have hmem : ∀ file, file ∈ insertAll entries [] ↔ file ∈ entries := fun file => hperm.mem_iff
  refine ⟨(hperm.map _).nodup_iff.2 (hnames ▸ hnodup), fun file hfile => ?_, fun job => ?_,
    fun h => (hmem _).2 (htable h), fun h => ?_, hhour, hminute⟩
  · exact hsimple _ (hnames ▸ List.mem_map_of_mem ((hmem _).1 hfile))
  · obtain ⟨file, hfile, hname⟩ := List.mem_map.1 (hnames ▸ hscript job)
    exact ⟨file.2, (hmem _).2 (by rw [← hname]; exact hfile)⟩
  · obtain ⟨pollHours, hall⟩ := hunit h
    exact ⟨pollHours, fun job => (hmem _).2 (hall job)⟩

theorem slash_script (job : Job) : '/' :: job.script = match job with
    | .tick => text "/symeraseme-tick.sh"
    | .poll => text "/symeraseme-poll.sh"
    | .rescan => text "/symeraseme-rescan.sh" := by
  cases job <;> decide

section Generate

variable {cfg : Config} (hhour : 0 ≤ cfg.tickHour) (hminute : 0 ≤ cfg.tickMinute)
  (binaryPath projectDir : Path) (pollHours : List ℤ)

include hhour hminute

theorem cron_generated :
    Generated .cron cfg (Cron.generate cfg binaryPath projectDir pollHours) := by
  refine generated_of_entries
    [text "symeraseme-tick.sh", text "symeraseme-poll.sh", text "symeraseme-rescan.sh",
      text "install.sh", text "uninstall.sh", text "crontab.txt"]
    rfl (by decide) (by decide) (fun job => by cases job <;> decide)
    (fun _ => ?_) (fun h => absurd rfl h) hhour hminute
  exact List.mem_of_getElem? (i := 5) rfl

theorem launchd_generated :
    Generated .launchd cfg (Launchd.generate cfg binaryPath projectDir pollHours) := by
  refine generated_of_entries
    [text "symeraseme-tick.sh", text "com.symeraseme.tick.plist", text "symeraseme-poll.sh",
      text "com.symeraseme.poll.plist", text "symeraseme-rescan.sh",
      text "com.symeraseme.rescan.plist", text "install.sh", text "uninstall.sh"]
    rfl (by decide) (by decide) (fun job => by cases job <;> decide)
    (fun h => absurd h (by decide)) (fun _ => ⟨pollHours, fun job => ?_⟩) hhour hminute
  have hname : unitName .launchd job = launchdLabel job ++ text ".plist" := if_pos rfl
  rw [Launchd.entries, hname]
  simp only [unitContents]
  cases job with
  | tick =>
    rw [slash_script .tick, show launchdLabel .tick = text "com.symeraseme.tick" by decide,
      show text "com.symeraseme.tick" ++ text ".plist" = text "com.symeraseme.tick.plist" by
        decide]
    exact List.mem_cons_of_mem _ List.mem_cons_self
  | poll =>
    rw [slash_script .poll, show launchdLabel .poll = text "com.symeraseme.poll" by decide,
      show text "com.symeraseme.poll" ++ text ".plist" = text "com.symeraseme.poll.plist" by
        decide]
    exact List.mem_of_getElem? (i := 3) rfl
  | rescan =>
    rw [slash_script .rescan,
      show launchdLabel .rescan = text "com.symeraseme.rescan" by decide,
      show text "com.symeraseme.rescan" ++ text ".plist" = text "com.symeraseme.rescan.plist" by
        decide]
    exact List.mem_of_getElem? (i := 5) rfl

omit hhour hminute in
theorem systemd_unit_mem (job : Job) :
    (job.name ++ text ".service",
      Systemd.service job.description (wrapperDirPlaceholder ++ '/' :: job.script)) ∈
      Systemd.entries cfg binaryPath projectDir := by
  rw [Systemd.entries]
  cases job with
  | tick =>
    rw [slash_script .tick, show Job.name .tick ++ text ".service" =
      text "symeraseme-tick.service" by decide]
    exact List.mem_cons_of_mem _ List.mem_cons_self
  | poll =>
    rw [slash_script .poll, show Job.name .poll ++ text ".service" =
      text "symeraseme-poll.service" by decide]
    exact List.mem_of_getElem? (i := 4) rfl
  | rescan =>
    rw [slash_script .rescan, show Job.name .rescan ++ text ".service" =
      text "symeraseme-rescan.service" by decide]
    exact List.mem_of_getElem? (i := 7) rfl

theorem systemd_generated :
    Generated .systemd cfg (Systemd.generate cfg binaryPath projectDir) := by
  refine generated_of_entries
    [text "symeraseme-tick.sh", text "symeraseme-tick.service", text "symeraseme-tick.timer",
      text "symeraseme-poll.sh", text "symeraseme-poll.service", text "symeraseme-poll.timer",
      text "symeraseme-rescan.sh", text "symeraseme-rescan.service",
      text "symeraseme-rescan.timer", text "install.sh", text "uninstall.sh"]
    rfl (by decide) (by decide) (fun job => by cases job <;> decide)
    (fun h => absurd h (by decide)) (fun _ => ⟨[], fun job => ?_⟩) hhour hminute
  have hname : unitName .systemd job = job.name ++ text ".service" := if_neg (by decide)
  rw [hname]
  exact systemd_unit_mem binaryPath projectDir job

end Generate

/-- What `generate` returns. -/
theorem generate_ok {around : Surroundings} {cfg : Config} {files : Files}
    (h : generate around cfg = .ok files) :
    Generated (cfg.platform.getD around.platform) cfg files := by
  obtain ⟨_, htime, h⟩ := Result.bind_eq_ok.1 h
  unfold checkTickTime at htime
  split_ifs at htime with hrange
  rw [not_or, not_or, not_or] at hrange
  have hhour : 0 ≤ cfg.tickHour := not_lt.1 hrange.1
  have hminute : 0 ≤ cfg.tickMinute := not_lt.1 hrange.2.2.1
  obtain ⟨_, -, h⟩ := Result.bind_eq_ok.1 h
  obtain ⟨binaryPath, -, h⟩ := Result.bind_eq_ok.1 h
  obtain ⟨projectDir, -, h⟩ := Result.bind_eq_ok.1 h
  cases hplatform : cfg.platform.getD around.platform with
  | cron =>
    simp only [hplatform] at h
    rw [← Except.ok.inj h]
    exact cron_generated hhour hminute _ _ _
  | launchd =>
    simp only [hplatform] at h
    rw [← Except.ok.inj h]
    exact launchd_generated hhour hminute _ _ _
  | systemd =>
    simp only [hplatform] at h
    rw [← Except.ok.inj h]
    exact systemd_generated hhour hminute _ _

/-! ### The path of a wrapper -/

/-- The path of a wrapper, cleaned, is below the cleaned directory. -/
theorem lexicallyClean_wrapperPath {dir : Path} (habs : isAbsolute dir = true) (job : Job) :
    lexicallyClean (wrapperPath dir job) = join (lexicallyClean dir) (lexicallyClean job.script) := by
  have hsimple : Simple job.script := by cases job <;> decide
  have hscript : lexicallyClean job.script = job.script := by cases job <;> decide
  rw [hscript]
  exact lexicallyClean_append habs hsimple

/-! ### The installed jobs -/

/-- The definition of a job runs the wrapper that was written below the output directory. -/
structure PointsAtWrapper (host : Host) (options : InstallOptions) (result : InstallResult)
    (m : Machine) (job : Job) : Prop where
  command : jobCommand m ((installRoot host options result.platform).toOption.getD []) job
    result.platform = some (wrapperCommand (wrapperPath result.outputDir job) result.platform)
  written : lexicallyClean (wrapperPath result.outputDir job) ∈ result.files

/-- A unit that `install` wrote is the generated one with the directory in it. -/
theorem installNative_ok {host : Host} {options : InstallOptions} {generated : Files}
    {outputDir : Path} {platform : Platform} {log log' : List Event} {u : Unit} (m : Machine)
    (hnodup : (generated.map (·.1)).Nodup) (hsimple : ∀ file ∈ generated, Simple file.1)
    (h : installNative host options generated outputDir platform log = .ok (u, log')) :
    ∃ root, installRoot host options platform = .ok root ∧
      ∀ file ∈ generated, isNativeUnit platform file.1 = true →
        (m.after log').files (join root file.1) =
          some (Text.replaceAll file.2 wrapperDirPlaceholder outputDir) := by
  obtain ⟨root, mid, hlift, h⟩ := bind_ok.1 h
  obtain ⟨hroot, rfl⟩ := lift_ok.1 hlift
  obtain ⟨_, mid, -, h⟩ := bind_ok.1 h
  obtain ⟨_, mid', hunits, h⟩ := bind_ok.1 h
  obtain ⟨events, hevents, rfl⟩ := activate_ok h
  have hsub : (generated.filter fun file => isNativeUnit platform file.1).Sublist generated :=
    List.filter_sublist
  obtain ⟨hall, -⟩ := forM_installNativeUnit_ok (m := m)
    (fun file hfile => hsimple file (hsub.mem hfile)) ((hsub.map _).nodup hnodup) hunits
  refine ⟨root, hroot, fun file hfile hnative => ?_⟩
  rw [after_append, files_after_commands hevents]
  exact hall file (List.mem_filter.2 ⟨hfile, hnative⟩)

/-- What a successful installation did. -/
theorem install_ok {host : Host} {options : InstallOptions} {result : InstallResult}
    {log log' : List Event} (h : install host options log = .ok (result, log')) :
    ∃ generated mid mid' start u,
      generate host.around (installConfig options result.platform) = .ok generated ∧
      writeFiles host result.outputDir generated mid = .ok (result.files, mid') ∧
      installJobs host options generated result.outputDir result.platform start =
        .ok (u, log') := by
  obtain ⟨platform, _, -, h⟩ := bind_ok.1 h
  obtain ⟨legacy, _, -, h⟩ := bind_ok.1 h
  obtain ⟨_, _, -, h⟩ := bind_ok.1 h
  obtain ⟨generated, mid, hlift, h⟩ := bind_ok.1 h
  obtain ⟨hgenerate, rfl⟩ := lift_ok.1 hlift
  obtain ⟨written, mid', hwritten, h⟩ := bind_ok.1 h
  obtain ⟨_, start, -, h⟩ := bind_ok.1 h
  obtain ⟨u, _, hjobs, h⟩ := bind_ok.1 h
  obtain ⟨rfl, rfl⟩ := pure_ok.1 h
  exact ⟨generated, _, mid', start, u, hgenerate, hwritten, hjobs⟩

/-- A machine without units and without a crontab. -/
def sampleHost : Host where
  around :=
    { platform := .cron
      currentExe := .ok (text "/usr/bin/symeraseme")
      workingDirectory := .ok (text "/home/jane")
      currentDir := .ok (text "/home/jane") }
  homeVar := some (text "/home/jane")
  xdgConfigHomeVar := none
  stagingNumber _ := 7
  answer _ op :=
    match op with
    | .read _ | .metadata _ => .error ⟨.notFound, "No such file or directory"⟩
    | _ => .ok {}

def sampleOptions (platform : Platform) (outputDir : Path) : InstallOptions where
  config := { platform := some platform, outputDir }

def sampleMachine : Machine := ⟨fun _ => none, []⟩

/-- The directory of an installation and the command of a job after it. -/
def sampleCommand (platform : Platform) (outputDir : Path) (job : Job) :
    Option (Platform × Path × Option (List (List Char))) :=
  let options := sampleOptions platform outputDir
  match install sampleHost options [] with
  | .ok (result, log) =>
      some (result.platform, result.outputDir, jobCommand (sampleMachine.after log)
        ((installRoot sampleHost options result.platform).toOption.getD []) job result.platform)
  | .error _ => none

theorem sampleCommand_ok {platform : Platform} {outputDir : Path} {job : Job}
    {out : Platform × Path × Option (List (List Char))}
    (h : sampleCommand platform outputDir job = some out) :
    ∃ result log, install sampleHost (sampleOptions platform outputDir) [] = .ok (result, log) ∧
      result.platform = out.1 ∧ result.outputDir = out.2.1 ∧
      jobCommand (sampleMachine.after log) ((installRoot sampleHost
        (sampleOptions platform outputDir) result.platform).toOption.getD []) job
        result.platform = out.2.2 := by
  unfold sampleCommand at h
  dsimp only at h
  split at h
  · next result log hinstall =>
    rw [← Option.some.inj h]
    exact ⟨result, log, hinstall, rfl, rfl, rfl⟩
  · cases h

end EraseMe.Scheduler
