import EraseMe.Library.Crontab
import EraseMe.Library.UnitFile
import EraseMe.Library.Xml
import EraseMe.Scheduler.Install

/-!
# Installed jobs and their wrappers

A job's definition is an entry of the crontab, a systemd unit or a launchd property list.  Each
format is read by its own rules, and the command that comes out is compared with the path of the
wrapper.  The directory of the wrappers goes into the definition as it is, so the command is the
path exactly when the format reads every character of the directory as itself (`Embeddable`).
-/

namespace EraseMe.Scheduler

open Paths CommandLine

/-! ### The directory in the texts -/

theorem unlines_cons (l : List Char) (ls : List (List Char)) :
    unlines (l :: ls) = l ++ '\n' :: unlines ls := by
  simp [unlines]

theorem unlines_append (a b : List (List Char)) : unlines (a ++ b) = unlines a ++ unlines b := by
  simp [unlines]

section Token

variable {token : List Char} (htoken : token ≠ [])

include htoken

/-- A token without a line break is replaced line by line. -/
theorem replaceAll_unlines (dir : List Char) (hline : '\n' ∉ token) (ls : List (List Char)) :
    Text.replaceAll (unlines ls) token dir =
      unlines (ls.map fun l => Text.replaceAll l token dir) := by
  induction ls with
  | nil => rfl
  | cons l ls ih =>
    rw [unlines_cons, Text.replaceAll_sep htoken hline, ih, List.map_cons, unlines_cons]

/-- A line with the token in it. -/
theorem replaceAll_line (dir : List Char) {a b : List Char} (ha : ∀ c ∈ token.head?, c ∉ a)
    (hb : b.tails.all fun r => ¬ token.isPrefixOf r) :
    Text.replaceAll (a ++ (token ++ b)) token dir = a ++ (dir ++ b) := by
  rw [Text.replaceAll_append htoken ha, Text.replaceAll_token htoken, Text.replaceAll_eq_self hb]

end Token

theorem isDigit_of_mem_decimal {n : ℤ} (hn : 0 ≤ n) {c : Char} (hc : c ∈ decimal n) :
    c.isDigit = true := by
  rw [decimal, if_neg (not_lt.2 hn)] at hc
  exact Nat.isDigit_of_mem_toDigits (by decide) (by decide) hc

theorem decimal_ne_nil {n : ℤ} (hn : 0 ≤ n) : decimal n ≠ [] := by
  rw [decimal, if_neg (not_lt.2 hn)]
  exact Nat.toDigits_ne_nil

theorem isDigit_of_mem_decimal2 {n : ℤ} (hn : 0 ≤ n) {c : Char} (hc : c ∈ decimal2 n) :
    c.isDigit = true := by
  unfold decimal2 at hc
  split_ifs at hc
  · rcases List.mem_cons.1 hc with rfl | hc
    · rfl
    · exact isDigit_of_mem_decimal hn hc
  · exact isDigit_of_mem_decimal hn hc

/-! ### Reading the definitions -/

/-- What install leaves on the machine: files, and the table of cron. -/
structure Machine where
  files : Path → Option (List Char)
  crontab : List Char

def Machine.apply (m : Machine) : Event → Machine
  | (.replaceFile path contents _, true) =>
      { m with files := Function.update m.files path (some contents) }
  | (.write path contents, true) =>
      { m with files := Function.update m.files path (some contents) }
  | (.removeFile path, true) => { m with files := Function.update m.files path none }
  | (.run name [path], true) =>
      if name = text "crontab" ∧ path ≠ text "-l" then
        { m with crontab := (m.files path).getD m.crontab }
      else m
  | _ => m

/-- The machine after the operations of a log. -/
def Machine.after (m : Machine) (log : List Event) : Machine := log.foldl Machine.apply m

/-- The file of a job's unit. -/
def unitName (platform : Platform) (job : Job) : List Char :=
  if platform = .launchd then launchdLabel job ++ text ".plist" else job.name ++ text ".service"

def programArgumentsKey : List Char := text "<key>ProgramArguments</key>"

def execStartKey : List Char := text "ExecStart="

/-- The entry of a job in a table that ends with the three jobs. -/
def cronCommand (table : List Char) (job : Job) : Option (List (List Char)) :=
  let fromEnd := match job with
    | .tick => 2
    | .poll => 1
    | .rescan => 0
  ((Crontab.commands table).reverse[fromEnd]?).join

/-- The one command of a unit. -/
def systemdCommand (unit : List Char) : Option (List (List Char)) :=
  match UnitLine.commands execStartKey unit with
  | [command] => command
  | _ => none

/-- The command that the definition of a job stands for, from the unit directory. -/
def jobCommand (m : Machine) (root : Path) (job : Job) :
    Platform → Option (List (List Char))
  | .cron => cronCommand m.crontab job
  | .launchd => (m.files (join root (unitName .launchd job))).bind
      (Xml.stringArray programArgumentsKey)
  | .systemd => (m.files (join root (unitName .systemd job))).bind systemdCommand

/-- The path of a job's wrapper. -/
def wrapperPath (outputDir : Path) (job : Job) : Path := outputDir ++ '/' :: job.script

/-- The command that runs a wrapper. -/
def wrapperCommand (path : Path) : Platform → List (List Char)
  | .cron => [path]
  | .launchd | .systemd => [text "/bin/bash", path]

/-- Directories that the format of a platform reads as themselves. -/
def Embeddable (dir : List Char) : Platform → Prop
  | .cron => Shell.Literal dir ∧ '%' ∉ dir
  | .launchd => Xml.Literal dir
  | .systemd => UnitLine.Literal dir ∧ ∀ c ∈ dir, UnitLine.isEol c = false

theorem script_plain (job : Job) :
    (∀ c ∈ job.script, c ∉ UnitLine.special ∧ UnitLine.isEol c = false) ∧
      (∀ c ∈ job.script, Xml.isChar c = true ∧ c ≠ '<' ∧ c ≠ '&' ∧ c ≠ '\r' ∧ c ≠ ']') ∧
      (∀ c ∈ '/' :: job.script, c ∉ Shell.special ∧ c ≠ '$' ∧ c ≠ '%' ∧ c ≠ '\n') := by
  cases job <;> decide

theorem placeholder_ne_nil : wrapperDirPlaceholder ≠ [] := by decide

theorem newline_not_mem_placeholder : '\n' ∉ wrapperDirPlaceholder := by decide

theorem placeholder_head {a : List Char} (h : '_' ∉ a) :
    ∀ c ∈ wrapperDirPlaceholder.head?, c ∉ a := by
  have hhead : wrapperDirPlaceholder.head? = some '_' := by decide
  rw [hhead]
  rintro c ⟨⟩
  exact h

/-! ### cron -/

/-- The text before a job's command: the time, and a blank. -/
def cronTime (hour minute : ℤ) : Job → List Char
  | .tick => decimal minute ++ ' ' :: (decimal hour ++ text " * * * ")
  | .poll => text "0 * * * * "
  | .rescan => decimal minute ++ ' ' :: (decimal hour ++ text " 1 1,4,7,10 * ")

section Cron

variable {hour minute : ℤ} (hh : 0 ≤ hour) (hm : 0 ≤ minute)

include hh hm

/-- A character that is in no number and in none of the times is not before a command. -/
theorem not_mem_cronTime {c : Char} (hdigit : c.isDigit = false)
    (hc : c ∉ text "0 * * * * 1 1,4,7,10 * ") (job : Job) : c ∉ cronTime hour minute job := by
  have hnumber : ∀ n, 0 ≤ n → c ∉ decimal n := fun n hn hmem => by
    rw [isDigit_of_mem_decimal hn hmem] at hdigit
    cases hdigit
  have hblank : c ≠ ' ' := by
    rintro rfl
    exact hc (by decide)
  have htimes : ∀ times, times ⊆ text "0 * * * * 1 1,4,7,10 * " → c ∉ times :=
    fun times hsub hmem => hc (hsub hmem)
  cases job with
  | tick =>
    rw [cronTime, List.mem_append, List.mem_cons, List.mem_append, not_or, not_or, not_or]
    exact ⟨hnumber minute hm, hblank, hnumber hour hh, htimes _ (by decide)⟩
  | poll => exact htimes (text "0 * * * * ") (by decide)
  | rescan =>
    rw [cronTime, List.mem_append, List.mem_cons, List.mem_append, not_or, not_or, not_or]
    exact ⟨hnumber minute hm, hblank, hnumber hour hh, htimes _ (by decide)⟩

/-- The time of the tick, in the comment. -/
def cronComment (hour minute : ℤ) : List Char :=
  text " Tick (daily at " ++ decimal2 hour ++ [':'] ++ decimal2 minute ++ [')']

theorem not_mem_cronComment {c : Char} (hdigit : c.isDigit = false)
    (hc : c ∉ text " Tick (daily at :)") : c ∉ cronComment hour minute := by
  have hnumber : ∀ n, 0 ≤ n → c ∉ decimal2 n := fun n hn hmem => by
    rw [isDigit_of_mem_decimal2 hn hmem] at hdigit
    cases hdigit
  have htext : ∀ s, s ⊆ text " Tick (daily at :)" → c ∉ s := fun s hsub hmem => hc (hsub hmem)
  rw [cronComment, List.mem_append, List.mem_append, List.mem_append, List.mem_append, not_or,
    not_or, not_or, not_or]
  exact ⟨⟨⟨⟨htext _ (by decide), hnumber hour hh⟩, htext _ (by decide)⟩,
    hnumber minute hm⟩, htext _ (by decide)⟩

/-- The lines of the crontab with the directory in it. -/
def cronLines (hour minute : ℤ) (dir : List Char) : List (List Char) :=
  [text "# Symaira EraseMe scheduled tasks",
    text "# Generated by symeraseme generate-scheduler (Go)", text "",
    '#' :: cronComment hour minute, cronTime hour minute .tick ++ wrapperPath dir .tick, text "",
    text "# Poll inbox (hourly wrapper checks configured times)",
    cronTime hour minute .poll ++ wrapperPath dir .poll, text "",
    text "# Re-scan (quarterly on 1st of Jan, Apr, Jul, Oct)",
    cronTime hour minute .rescan ++ wrapperPath dir .rescan, text "",
    text "# End Symaira EraseMe scheduled tasks"]

theorem replaceAll_cronTab (dir : List Char) :
    Text.replaceAll (Cron.cronTab hour minute) Cron.wrapperToken dir =
      unlines (cronLines hour minute dir) := by
  have htoken : Cron.wrapperToken ≠ [] := by decide
  have hhead : Cron.wrapperToken.head? = some '\x7b' := by decide
  have hclosed : ∀ l : List Char, '\x7b' ∉ l → Text.replaceAll l Cron.wrapperToken dir = l := by
    intro l hl
    have happend : Text.replaceAll (l ++ []) Cron.wrapperToken dir =
        l ++ Text.replaceAll [] Cron.wrapperToken dir :=
      Text.replaceAll_append htoken (by simpa [hhead])
    rw [List.append_nil] at happend
    exact happend.trans (List.append_nil l)
  have hentry : ∀ job : Job, Text.replaceAll
      (cronTime hour minute job ++ (Cron.wrapperToken ++ '/' :: job.script)) Cron.wrapperToken dir =
        cronTime hour minute job ++ wrapperPath dir job := by
    intro job
    refine replaceAll_line htoken dir ?_ (by cases job <;> decide)
    rw [hhead]
    rintro c ⟨⟩
    exact not_mem_cronTime hh hm rfl (by decide) job
  have hcomment : '\x7b' ∉ '#' :: cronComment hour minute := by
    rw [List.mem_cons, not_or]
    exact ⟨by decide, not_mem_cronComment hh hm rfl (by decide)⟩
  have htab : Cron.cronTab hour minute = unlines [text "# Symaira EraseMe scheduled tasks",
      text "# Generated by symeraseme generate-scheduler (Go)", text "",
      '#' :: cronComment hour minute,
      cronTime hour minute .tick ++ (Cron.wrapperToken ++ '/' :: Job.tick.script), text "",
      text "# Poll inbox (hourly wrapper checks configured times)",
      cronTime hour minute .poll ++ (Cron.wrapperToken ++ '/' :: Job.poll.script), text "",
      text "# Re-scan (quarterly on 1st of Jan, Apr, Jul, Oct)",
      cronTime hour minute .rescan ++ (Cron.wrapperToken ++ '/' :: Job.rescan.script), text "",
      text "# End Symaira EraseMe scheduled tasks"] := by
    have htick : text "/symeraseme-tick.sh" = '/' :: Job.tick.script := by decide
    have hpoll : text "/symeraseme-poll.sh" = '/' :: Job.poll.script := by decide
    have hrescan : text "/symeraseme-rescan.sh" = '/' :: Job.rescan.script := by decide
    have hdaily : text "# Tick (daily at " = '#' :: text " Tick (daily at " := by decide
    rw [Cron.cronTab, htick, hpoll, hrescan, hdaily]
    rfl
  rw [htab, replaceAll_unlines htoken dir (by decide), cronLines]
  simp only [List.map_cons, List.map_nil, hentry, hclosed _ hcomment]
  rw [hclosed (text "# Symaira EraseMe scheduled tasks") (by decide),
    hclosed (text "# Generated by symeraseme generate-scheduler (Go)") (by decide),
    hclosed (text "") (by decide),
    hclosed (text "# Poll inbox (hourly wrapper checks configured times)") (by decide),
    hclosed (text "# Re-scan (quarterly on 1st of Jan, Apr, Jul, Oct)") (by decide),
    hclosed (text "# End Symaira EraseMe scheduled tasks") (by decide)]

/-- The fields of a job's time. -/
def cronFields (hour minute : ℤ) : Job → List (List Char)
  | .tick => [decimal minute, decimal hour, ['*'], ['*'], ['*']]
  | .poll => [['0'], ['*'], ['*'], ['*'], ['*']]
  | .rescan => [decimal minute, decimal hour, ['1'], text "1,4,7,10", ['*']]

omit hh hm in
theorem cronTime_append (job : Job) (s : List Char) :
    cronTime hour minute job ++ s =
      (cronFields hour minute job).foldr (fun f r => f ++ ' ' :: r) s := by
  cases job with
  | tick =>
    have hclosed : text " * * * " = [' ', '*', ' ', '*', ' ', '*', ' '] := by decide
    simp [cronTime, cronFields, hclosed]
  | poll =>
    have hclosed : text "0 * * * * " = ['0', ' ', '*', ' ', '*', ' ', '*', ' ', '*', ' '] := by
      decide
    simp [cronTime, cronFields, hclosed]
  | rescan =>
    have hclosed : text " 1 1,4,7,10 * " = [' ', '1', ' '] ++ text "1,4,7,10" ++ [' ', '*', ' '] := by
      decide
    simp [cronTime, cronFields, hclosed]

theorem entry_cronTime (job : Job) {s : List Char} (hs : s.head? = some '/') :
    Crontab.entry (cronTime hour minute job ++ s) = some s := by
  have hnumber : ∀ n, 0 ≤ n → decimal n ≠ [] ∧ ∀ c ∈ decimal n, Crontab.isBlank c = false := by
    intro n hn
    refine ⟨decimal_ne_nil hn, fun c hc => ?_⟩
    have hdigit := isDigit_of_mem_decimal hn hc
    simp only [Crontab.isBlank, decide_eq_false_iff_not]
    rintro (rfl | rfl) <;> cases hdigit
  have hfirst : (decimal minute).head? ≠ some '#' := by
    intro h
    have hmem : '#' ∈ decimal minute := List.mem_of_mem_head? h
    cases isDigit_of_mem_decimal hm hmem
  have hne : s ≠ [] := by
    rintro rfl
    cases hs
  have hhead : ∀ c ∈ s.head?, Crontab.isBlank c = false := by
    rw [hs]
    rintro c ⟨⟩
    rfl
  rw [cronTime_append]
  cases job with
  | tick =>
    refine Crontab.entry_foldr rfl ?_ hfirst hne hhead
    simp only [List.mem_cons, List.not_mem_nil, or_false, forall_eq_or_imp, forall_eq]
    exact ⟨hnumber minute hm, hnumber hour hh, by decide, by decide, by decide⟩
  | poll => exact Crontab.entry_foldr rfl (by decide) (by decide) hne hhead
  | rescan =>
    refine Crontab.entry_foldr rfl ?_ hfirst hne hhead
    have hmonths : text "1,4,7,10" ≠ [] ∧
        ∀ c ∈ text "1,4,7,10", Crontab.isBlank c = false := by decide
    simp only [List.mem_cons, List.not_mem_nil, or_false, forall_eq_or_imp, forall_eq]
    exact ⟨hnumber minute hm, hnumber hour hh, by decide, hmonths, by decide⟩

/-- The last three commands of a table are those of the jobs. -/
theorem commands_cronLines {dir : List Char} (habs : isAbsolute dir = true) (hline : '\n' ∉ dir) :
    Crontab.commands (unlines (cronLines hour minute dir)) =
      [Crontab.command (wrapperPath dir .tick), Crontab.command (wrapperPath dir .poll),
        Crontab.command (wrapperPath dir .rescan)] := by
  have hentry : ∀ job : Job, Crontab.commands (cronTime hour minute job ++ wrapperPath dir job) =
      [Crontab.command (wrapperPath dir job)] := by
    intro job
    have hhead : (wrapperPath dir job).head? = some '/' := by
      cases dir with
      | nil => rfl
      | cons c dir => simpa [isAbsolute, wrapperPath] using habs
    refine Crontab.commands_of_entry ?_ (entry_cronTime hh hm job hhead)
    rw [wrapperPath, List.mem_append, List.mem_append, not_or, not_or]
    exact ⟨not_mem_cronTime hh hm rfl (by decide) job, hline,
      fun hmem => ((script_plain job).2.2 _ hmem).2.2.2 rfl⟩
  have hcomment : Crontab.commands ('#' :: cronComment hour minute) = [] :=
    Crontab.commands_comment (not_mem_cronComment hh hm rfl (by decide))
  have hcommands : ∀ ls, Crontab.commands (unlines ls) = ls.flatMap Crontab.commands := by
    intro ls
    induction ls with
    | nil => rfl
    | cons l ls ih => rw [unlines_cons, Crontab.commands_append, ih, List.flatMap_cons]
  have hclosed : ∀ l ∈ [text "# Symaira EraseMe scheduled tasks",
      text "# Generated by symeraseme generate-scheduler (Go)", text "",
      text "# Poll inbox (hourly wrapper checks configured times)",
      text "# Re-scan (quarterly on 1st of Jan, Apr, Jul, Oct)",
      text "# End Symaira EraseMe scheduled tasks"], Crontab.commands l = [] := by
    repeat rw [text_ofList]
    decide
  rw [hcommands, cronLines]
  simp only [List.flatMap_cons, List.flatMap_nil, hentry, hcomment]
  simp only [List.mem_cons, List.not_mem_nil, or_false, forall_eq_or_imp, forall_eq] at hclosed
  obtain ⟨h1, h2, h3, h4, h5, h6⟩ := hclosed
  rw [h1, h2, h3, h4, h5, h6]
  rfl

omit hh hm in
theorem terminated_cases (content : List Char) :
    terminated content = [] ∨ ∃ kept, terminated content = kept ++ ['\n'] := by
  unfold terminated
  split_ifs with h
  · exact Or.inr ⟨content, rfl⟩
  · by_cases hnil : content = []
    · exact Or.inl hnil
    · rw [not_and, not_ne_iff] at h
      exact Or.inr (List.getLast?_eq_some_iff.1 (h hnil))

/-- The entry of a job runs its wrapper exactly when the directory can be embedded. -/
theorem cronCommand_iff (job : Job) (existing : List Char) {dir : List Char}
    (habs : isAbsolute dir = true) :
    cronCommand (updatedTable existing (Cron.cronTab hour minute) dir) job =
      some [wrapperPath dir job] ↔ Embeddable dir .cron := by
  by_cases hline : '\n' ∈ dir
  · -- no word of a command has the line break that the path has
    refine iff_of_false (fun h => ?_) (fun h => h.1.1 '\n' hline (by decide))
    simp only [cronCommand, Option.join_eq_some_iff, List.getElem?_eq_some_iff] at h
    obtain ⟨hlt, hget⟩ := h
    have hmem := List.mem_reverse.1 (hget ▸ List.getElem_mem hlt)
    refine Crontab.newline_not_mem_commands hmem _ List.mem_cons_self ?_
    exact List.mem_append_left _ hline
  · obtain ⟨before, hbefore⟩ : ∃ before, Crontab.commands
        (updatedTable existing (Cron.cronTab hour minute) dir) = before ++
          [Crontab.command (wrapperPath dir .tick), Crontab.command (wrapperPath dir .poll),
            Crontab.command (wrapperPath dir .rescan)] := by
      rw [updatedTable, replaceAll_cronTab hh hm]
      rcases terminated_cases (removeCronBlock existing) with h | ⟨kept, h⟩
      · exact ⟨[], by rw [h, List.nil_append, commands_cronLines hh hm habs hline]; rfl⟩
      · refine ⟨Crontab.commands kept, ?_⟩
        rw [h, List.append_assoc, List.singleton_append, Crontab.commands_append,
          commands_cronLines hh hm habs hline]
    have hcommand : cronCommand (updatedTable existing (Cron.cronTab hour minute) dir) job =
        Crontab.command (wrapperPath dir job) := by
      cases job <;> simp [cronCommand, hbefore]
    rw [hcommand]
    obtain ⟨d, rfl⟩ : ∃ d, dir = '/' :: d := by
      cases dir with
      | nil => cases habs
      | cons c d =>
        simp only [isAbsolute, List.head?_cons, Option.some.injEq, decide_eq_true_eq] at habs
        exact ⟨d, by rw [habs]⟩
    have hplain := (script_plain job).2.2
    have htail : Shell.Literal ('/' :: job.script) := by
      refine ⟨fun c hc => (hplain c hc).1, fun u v huv => ?_⟩
      exact absurd rfl (hplain '$' (by rw [huv]; simp)).2.1
    have hslash : Shell.Literal ('/' :: d) ↔ Shell.Literal d := by
      constructor
      · rintro ⟨hspecial, hdollar⟩
        exact ⟨fun c hc => hspecial c (List.mem_cons_of_mem _ hc),
          fun u v huv => hdollar ('/' :: u) v (by rw [huv, List.cons_append])⟩
      · rintro ⟨hspecial, hdollar⟩
        refine ⟨fun c hc => ?_, fun u v huv => ?_⟩
        · rcases List.mem_cons.1 hc with rfl | hc
          · decide
          · exact hspecial c hc
        · rcases List.cons_eq_append_iff.1 huv with ⟨rfl, heq⟩ | ⟨u, rfl, rfl⟩
          · cases heq
          · exact hdollar u v rfl
    have hpercent : '%' ∉ job.script := fun h =>
      (hplain _ (List.mem_cons_of_mem _ h)).2.2.1 rfl
    rw [wrapperPath, List.cons_append, Crontab.command_eq_iff, Shell.literal_append_iff htail rfl,
      Embeddable, hslash, List.mem_append, List.mem_cons, not_or, not_or]
    simp [hpercent]

end Cron

/-! ### systemd -/

def Job.description : Job → List Char
  | .tick => text "Symaira EraseMe daily tick"
  | .poll => text "Symaira EraseMe hourly inbox poll"
  | .rescan => text "Symaira EraseMe quarterly re-scan"

/-- The lines of a service before its command, without the last line break. -/
def serviceHead (job : Job) : List Char :=
  text "[Unit]\n# Generated by symeraseme generate-scheduler (Go)\nDescription=" ++
    job.description ++ text "\nAfter=network-online.target\n\n[Service]\nType=oneshot"

/-- The lines of a service after its command. -/
def serviceTail : List Char :=
  text "Environment=SYMERASEME_HEADLESS=1\nStandardOutput=journal\nStandardError=journal\n\n" ++
    text "[Install]\nWantedBy=default.target\n"

/-- The service with the directory in it. -/
theorem replaceAll_service (job : Job) (dir : List Char) :
    Text.replaceAll (Systemd.service job.description (wrapperDirPlaceholder ++ '/' :: job.script))
      wrapperDirPlaceholder dir =
    serviceHead job ++ '\n' :: ((execStartKey ++ (text "/bin/bash" ++ ' ' :: '"' ::
      ((dir ++ '/' :: job.script) ++ ['"']))) ++ '\n' :: serviceTail) := by
  have hsplit : Systemd.service job.description (wrapperDirPlaceholder ++ '/' :: job.script) =
      serviceHead job ++ '\n' :: ((text "ExecStart=/bin/bash \"" ++ (wrapperDirPlaceholder ++
        ('/' :: job.script ++ ['"']))) ++ '\n' :: serviceTail) := by
    generalize wrapperDirPlaceholder = placeholder
    generalize job.script = script
    rw [Systemd.service, serviceHead, serviceTail, legacyMarker]
    generalize job.description = description
    repeat rw [text_ofList]
    simp [unlines]
  have hhead : Text.replaceAll (serviceHead job) wrapperDirPlaceholder dir = serviceHead job := by
    refine Text.replaceAll_eq_self ?_
    rw [serviceHead, wrapperDirPlaceholder]
    cases job <;> rw [Job.description] <;> repeat rw [text_ofList]
    all_goals decide
  have htail : Text.replaceAll serviceTail wrapperDirPlaceholder dir = serviceTail := by
    refine Text.replaceAll_eq_self ?_
    rw [serviceTail, wrapperDirPlaceholder]
    repeat rw [text_ofList]
    decide
  have hline := replaceAll_line placeholder_ne_nil dir
    (a := text "ExecStart=/bin/bash \"") (b := '/' :: job.script ++ ['"'])
    (placeholder_head (by decide)) (by cases job <;> decide)
  rw [hsplit, Text.replaceAll_sep placeholder_ne_nil newline_not_mem_placeholder,
    Text.replaceAll_sep placeholder_ne_nil newline_not_mem_placeholder, hhead, htail, hline]
  have hkey : text "ExecStart=/bin/bash \"" =
      execStartKey ++ (text "/bin/bash" ++ [' ', '"']) := by decide
  rw [hkey]
  simp

/-- The unit of a job runs its wrapper exactly when the directory can be embedded. -/
theorem systemdCommand_iff (job : Job) (dir : List Char) :
    systemdCommand (Text.replaceAll
      (Systemd.service job.description (wrapperDirPlaceholder ++ '/' :: job.script))
      wrapperDirPlaceholder dir) = some [text "/bin/bash", wrapperPath dir job] ↔
    Embeddable dir .systemd := by
  have hhead : (UnitLine.lines (serviceHead job)).filterMap (UnitLine.value execStartKey) = [] := by
    rw [serviceHead, execStartKey]
    cases job <;> rw [Job.description] <;> repeat rw [text_ofList]
    all_goals decide
  have htail : (UnitLine.lines serviceTail).filterMap (UnitLine.value execStartKey) = [] := by
    rw [serviceTail, execStartKey]
    repeat rw [text_ofList]
    decide
  have hiff := UnitLine.commands_eq_iff execStartKey (text "/bin/bash") dir job.script
    (serviceHead job) serviceTail (by decide) (by decide) (by decide)
    (script_plain job).1 hhead htail
  rw [replaceAll_service, Embeddable, ← hiff, wrapperPath, systemdCommand]
  constructor
  · intro h
    split at h
    · next command hcommands => rw [hcommands, h]
    · cases h
  · intro h
    rw [h]

/-! ### launchd -/

/-- The lines of a property list up to the program. -/
def plistHead (job : Job) : List (List Char) :=
  [text "<?xml version=\"1.0\" encoding=\"UTF-8\"?>",
    text "<!DOCTYPE plist PUBLIC \"-//Apple//DTD PLIST 1.0//EN\"",
    text "  \"http://www.apple.com/DTDs/PropertyList-1.0.dtd\">",
    text "<!-- " ++ legacyMarker ++ text " (Go) -->",
    text "<plist version=\"1.0\">",
    text "<dict>",
    text "    <key>Label</key>",
    text "    <string>" ++ launchdLabel job ++ text "</string>",
    text "    <key>ProgramArguments</key>",
    text "    <array>",
    text "        <string>/bin/bash</string>"]

/-- The text of a property list up to the key of its program. -/
def plistPrefix (job : Job) : List Char := unlines ((plistHead job).take 8) ++ text "    "

/-- The lines of a property list after its program. -/
def plistTail (job : Job) (intervals : List Char) (array : Bool) : List (List Char) :=
  [text "    <key>StartCalendarInterval</key>",
    if array then text "    <array>\n" ++ intervals ++ text "\n    </array>"
    else text "    " ++ intervals,
    text "    <key>StandardOutPath</key>",
    text "    <string>/tmp/" ++ launchdLabel job ++ text ".log</string>",
    text "    <key>StandardErrorPath</key>",
    text "    <string>/tmp/" ++ launchdLabel job ++ text ".err</string>",
    text "    <key>EnvironmentVariables</key>",
    text "    <dict>",
    text "        <key>SYMERASEME_HEADLESS</key>",
    text "        <string>1</string>",
    text "    </dict>",
    text "    <key>RunAtLoad</key>",
    text "    <false/>",
    text "    <key>KeepAlive</key>",
    text "    <false/>",
    text "</dict>",
    text "</plist>"]

/-- Neither the label nor the placeholder has anything to escape. -/
theorem plist_eq (job : Job) (intervals : List Char) (array : Bool) :
    Launchd.plist (launchdLabel job) (wrapperDirPlaceholder ++ '/' :: job.script) intervals array =
      unlines (plistHead job ++ (text "        <string>" ++ (wrapperDirPlaceholder ++
        ('/' :: job.script ++ text "</string>"))) :: text "    </array>" ::
        plistTail job intervals array) := by
  have hlabel : Launchd.plistEscape (launchdLabel job) = launchdLabel job := by
    cases job <;> decide
  have hpath : Launchd.plistEscape (wrapperDirPlaceholder ++ '/' :: job.script) =
      wrapperDirPlaceholder ++ '/' :: job.script := by
    cases job <;> decide
  simp only [Launchd.plist, hlabel, hpath]
  rw [List.append_assoc (text "        <string>"),
    List.append_assoc wrapperDirPlaceholder]
  rfl

/-- The property list with the directory in it. -/
theorem exists_replaceAll_plist (job : Job) (intervals : List Char) (array : Bool)
    (dir : List Char) : ∃ rest,
    Text.replaceAll (Launchd.plist (launchdLabel job) (wrapperDirPlaceholder ++ '/' :: job.script)
      intervals array) wrapperDirPlaceholder dir =
    plistPrefix job ++ (programArgumentsKey ++ (text "\n    " ++ (Xml.arrayTag ++
      (text "\n        " ++ (Xml.stringTag ++ (text "/bin/bash" ++ (Xml.stringEndTag ++
      (text "\n        " ++ (Xml.stringTag ++ (wrapperPath dir job ++ (Xml.stringEndTag ++
      (text "\n    " ++ (Xml.arrayEndTag ++ rest))))))))))))) := by
  have hhead : (plistHead job).map (fun l => Text.replaceAll l wrapperDirPlaceholder dir) =
      plistHead job := by
    have hclosed : ∀ l ∈ plistHead job,
        l.tails.all (fun r => ¬ wrapperDirPlaceholder.isPrefixOf r) = true := by
      rw [plistHead, wrapperDirPlaceholder, legacyMarker]
      cases job <;> rw [launchdLabel] <;> repeat rw [text_ofList]
      all_goals decide
    exact (List.map_congr_left fun l hl => Text.replaceAll_eq_self (hclosed l hl)).trans
      (List.map_id _)
  have hline := replaceAll_line placeholder_ne_nil dir
    (a := text "        <string>") (b := '/' :: job.script ++ text "</string>")
    (placeholder_head (by decide)) (by cases job <;> decide)
  have hend : Text.replaceAll (text "    </array>") wrapperDirPlaceholder dir =
      text "    </array>" := Text.replaceAll_eq_self (by decide)
  have hprefix : unlines (plistHead job) = plistPrefix job ++ (programArgumentsKey ++
      (text "\n    " ++ (Xml.arrayTag ++ (text "\n        " ++ (Xml.stringTag ++
      (text "/bin/bash" ++ (Xml.stringEndTag ++ ['\n']))))))) := by
    have hkey : programArgumentsKey = text "<key>ProgramArguments</key>" := rfl
    have harray : Xml.arrayTag = text "<array>" := rfl
    have hstring : Xml.stringTag = text "<string>" := rfl
    have hstringEnd : Xml.stringEndTag = text "</string>" := rfl
    rw [plistPrefix, plistHead, hkey, harray, hstring, hstringEnd, legacyMarker]
    cases job <;> rw [launchdLabel] <;> repeat rw [text_ofList]
    all_goals decide +kernel
  have hopen : ∀ r, '\n' :: (text "        <string>" ++ r) =
      text "\n        " ++ (Xml.stringTag ++ r) := by
    intro r
    have hclosed : '\n' :: text "        <string>" = text "\n        " ++ Xml.stringTag := by
      decide
    rw [← List.cons_append, hclosed, List.append_assoc]
  have hclose : ∀ r, text "</string>" ++ '\n' :: (text "    </array>" ++ r) =
      Xml.stringEndTag ++ (text "\n    " ++ (Xml.arrayEndTag ++ r)) := by
    intro r
    have hclosed : text "</string>" ++ '\n' :: text "    </array>" =
        Xml.stringEndTag ++ (text "\n    " ++ Xml.arrayEndTag) := by
      decide
    rw [← List.cons_append, ← List.append_assoc, hclosed, List.append_assoc, List.append_assoc]
  refine ⟨'\n' :: unlines ((plistTail job intervals array).map fun l =>
    Text.replaceAll l wrapperDirPlaceholder dir), ?_⟩
  rw [plist_eq, replaceAll_unlines placeholder_ne_nil dir newline_not_mem_placeholder,
    List.map_append, hhead, List.map_cons, List.map_cons, hline, hend, unlines_append,
    unlines_cons, unlines_cons, hprefix, wrapperPath]
  simp only [List.append_assoc, List.cons_append, List.nil_append, hclose, hopen]

/-- The property list of a job runs its wrapper exactly when the directory can be embedded. -/
theorem stringArray_plist_iff (job : Job) (intervals : List Char) (array : Bool)
    (dir : List Char) :
    Xml.stringArray programArgumentsKey (Text.replaceAll
      (Launchd.plist (launchdLabel job) (wrapperDirPlaceholder ++ '/' :: job.script)
        intervals array) wrapperDirPlaceholder dir) =
      some [text "/bin/bash", wrapperPath dir job] ↔ Embeddable dir .launchd := by
  obtain ⟨rest, hrest⟩ := exists_replaceAll_plist job intervals array dir
  have hbefore : (plistPrefix job).tails.all
      fun u => u = [] ∨ ¬ programArgumentsKey.isPrefixOf (u ++ programArgumentsKey) := by
    have hkey : programArgumentsKey = text "<key>ProgramArguments</key>" := rfl
    rw [plistPrefix, plistHead, legacyMarker, hkey]
    cases job <;> rw [launchdLabel] <;> repeat rw [text_ofList]
    all_goals decide +kernel
  rw [hrest, Xml.stringArray_pair_iff (by decide) hbefore (by decide)
    (by decide) (by decide) (by decide) (by decide), wrapperPath, Xml.charData_append_iff (script_plain job).2.1]
  rfl

end EraseMe.Scheduler
