import EraseMe.Library.MarkedLines
import EraseMe.Library.Utf8Text
import EraseMe.Scheduler.Installed

/-!
# The crontab that is there

`install` and `uninstall` write the table anew from what `crontab -l` put out.  What a run submits is
the same whether cron takes it or not, so it is read off from a run with a cron that takes every
table (`submission`).

* `preserved_iff`: when the rest of a table comes back as it was;
* `linesKept_iff`: when no line of it gets lost, for every outcome of `crontab -l`.
-/

namespace EraseMe.Scheduler

open Paths

/-! ### Commands and their output -/

/-- What a command put out, and its exit code if it has one. -/
structure Output where
  stdout : List UInt8
  stderr : List UInt8
  code : Option ℤ

/-- `ExecRunner::run`, from what became of the command. -/
def execRun (outcome : Except IoError Output) : Except IoError (List UInt8) := do
  let output ← outcome
  let combined := output.stdout ++ output.stderr
  if output.code ≠ some 0 then
    .error ⟨.other, String.ofList (text "exit status " ++ decimal (output.code.getD (-1)) ++
      text ": " ++ Text.trimEnd (Utf8.lossy combined))⟩
  else .ok combined

def listTable : Op := .run (text "crontab") [text "-l"]

/-- The answer to `crontab -l`, as a text. -/
def Host.Lists (host : Host) (log : List Event) (outcome : Except IoError Output) : Prop :=
  (host.answer log listTable).map (·.text) = (execRun outcome).map Utf8.lossy

/-! ### Uninstallation -/

/-- Writes a table to a staging file and hands it to `crontab`, as `install_cron` and `uninstall`
do. -/
def submitTable (host : Host) (dir pre : Path) (table : List Char) : Io Unit := do
  let staging ← stagingPath host dir pre
  discard <| perform host (.write staging table) (.writeCronStaging staging)
  let result ← attempt host (.run (text "crontab") [staging])
  discard <| attempt host (.removeFile staging)
  match result with
  | .ok _ => pure ()
  | .error e => throw (.installCrontab e)

theorem installCron_eq (host : Host) (generated : Files) (outputDir : Path) :
    installCron host generated outputDir = (do
      let existing ← attempt host listTable
      submitTable host outputDir (text ".crontab-") (updatedTable (existing.toOption.getD {}).text
        ((lookupFile generated (text "crontab.txt")).getD []) outputDir)) := rfl

/-- `uninstall` for cron. -/
def uninstallCron (host : Host) (tempDir : Path) : Io Unit := do
  match ← attempt host listTable with
  | .error _ => pure ()
  | .ok existing =>
      submitTable host tempDir (text ".symeraseme-crontab-") (removeCronBlock existing.text)

/-! ### Submitted tables -/

/-- Whether an operation hands a table to cron. -/
def submits : Op → Bool
  | .run name [path] => name = text "crontab" ∧ path ≠ text "-l"
  | _ => false

/-- The host with a cron that takes every table. -/
def Host.accepting (host : Host) : Host :=
  { host with answer := fun log op => if submits op then .ok {} else host.answer log op }

/-- The tables that the operations hand to cron, with the files written before. -/
def tables (m : Machine) : List Event → List (List Char)
  | [] => []
  | (op, done) :: log =>
      let later := tables (m.apply (op, done)) log
      if submits op then (m.apply (op, true)).crontab :: later else later

/-- What a run hands to cron. -/
def submission (m : Machine) (host : Host) (run : Host → Io Unit) (log : List Event) :
    Except SchedulerError (List (List Char)) :=
  (run host.accepting log).map fun result => tables m (result.2.drop log.length)

section Spec

variable {host : Host} {log log' : List Event} {m : Machine}

@[simp] theorem accepting_listTable (host : Host) (log : List Event) :
    host.accepting.answer log listTable = host.answer log listTable := by
  have hsubmits : submits listTable = false := by decide
  simp [Host.accepting, hsubmits]

theorem stagingPath_ok {dir pre path : Path}
    (h : stagingPath host dir pre log = .ok (path, log')) :
    path ≠ text "-l" ∧ log' = log ++ [(.createDirAll dir, true)] := by
  obtain ⟨events, mid, hget, h⟩ := bind_ok.1 h
  cases hget
  obtain ⟨u, mid, hdir, h⟩ := bind_ok.1 h
  obtain ⟨_, hdir⟩ := discard_ok hdir
  obtain ⟨rfl, rfl⟩ := pure_ok.1 h
  exact ⟨staging_ne_list _ _ _, perform_ok hdir⟩

/-- A staged table is handed over once. -/
theorem submitTable_ok {dir pre : Path} {table : List Char} {u : Unit}
    (h : submitTable host dir pre table log = .ok (u, log')) :
    ∃ new, log' = log ++ new ∧ tables m new = [table] := by
  obtain ⟨staging, mid, hstaging, h⟩ := bind_ok.1 h
  obtain ⟨hname, rfl⟩ := stagingPath_ok hstaging
  obtain ⟨_, mid, hwrite, h⟩ := bind_ok.1 h
  obtain ⟨_, hwrite⟩ := discard_ok hwrite
  have hmid := perform_ok hwrite
  obtain ⟨result, mid, hrun, h⟩ := bind_ok.1 h
  obtain ⟨-, rfl⟩ := attempt_ok.1 hrun
  obtain ⟨_, last, hremove, h⟩ := bind_ok.1 h
  obtain ⟨_, hremove⟩ := discard_ok hremove
  obtain ⟨-, rfl⟩ := attempt_ok.1 hremove
  cases result with
  | error e => exact (throw_ok.1 h).elim
  | ok reply =>
    obtain ⟨-, rfl⟩ := pure_ok.1 h
    refine ⟨_, by rw [hmid, List.append_assoc, List.append_assoc, List.append_assoc], ?_⟩
    simp [tables, submits, Machine.apply, hname]

/-- An operation that hands over no table, before others. -/
theorem tables_listTable (listed : Bool) (log : List Event) :
    tables m ((listTable, listed) :: log) = tables (m.apply (listTable, listed)) log := by
  have hsubmits : submits listTable = false := by decide
  rw [tables, hsubmits]
  rfl

theorem submission_ok {run : Host → Io Unit} {ts : List (List Char)}
    (h : submission m host run log = .ok ts) :
    ∃ u log', run host.accepting log = .ok (u, log') ∧ ts = tables m (log'.drop log.length) := by
  unfold submission at h
  cases hrun : run host.accepting log with
  | error e =>
    rw [hrun] at h
    cases h
  | ok result =>
    rw [hrun] at h
    exact ⟨result.1, result.2, rfl, (Except.ok.inj h).symm⟩

/-- What `install_cron` hands to cron. -/
theorem submission_installCron {files : Files} {dir : Path} {ts : List (List Char)}
    (h : submission m host (installCron · files dir) log = .ok ts) :
    ts = [updatedTable ((host.answer log listTable).toOption.getD {}).text
      ((lookupFile files (text "crontab.txt")).getD []) dir] := by
  obtain ⟨u, log', hrun, rfl⟩ := submission_ok h
  rw [installCron_eq] at hrun
  obtain ⟨answer, mid, hlist, hrun⟩ := bind_ok.1 hrun
  obtain ⟨rfl, rfl⟩ := attempt_ok.1 hlist
  obtain ⟨new, rfl, htables⟩ := submitTable_ok (m := m.apply _) hrun
  rw [List.append_assoc, List.drop_left, List.singleton_append, tables_listTable, htables,
    accepting_listTable]

/-- What `uninstall` hands to cron. -/
theorem submission_uninstallCron {dir : Path} {ts : List (List Char)}
    (h : submission m host (uninstallCron · dir) log = .ok ts) :
    ts = match host.answer log listTable with
      | .error _ => []
      | .ok existing => [removeCronBlock existing.text] := by
  obtain ⟨u, log', hrun, rfl⟩ := submission_ok h
  obtain ⟨answer, mid, hlist, hrun⟩ := bind_ok.1 hrun
  obtain ⟨rfl, rfl⟩ := attempt_ok.1 hlist
  rw [accepting_listTable] at hrun
  cases hanswer : host.answer log listTable with
  | error e =>
    rw [hanswer] at hrun
    obtain ⟨-, rfl⟩ := pure_ok.1 hrun
    rw [List.drop_left, tables_listTable]
    rfl
  | ok existing =>
    rw [hanswer] at hrun
    obtain ⟨new, rfl, htables⟩ := submitTable_ok (m := m.apply _) hrun
    rw [List.append_assoc, List.drop_left, List.singleton_append, tables_listTable, htables]

/-- On a host where everything but the listing succeeds a table is handed over. -/
theorem submitTable_of_answer (dir pre : Path) (table : List Char)
    (h : ∀ log op, op ≠ listTable → ∃ reply, host.answer log op = .ok reply) (log : List Event) :
    ∃ log', submitTable host dir pre table log = .ok ((), log') := by
  have hperform : ∀ (op : Op) (wrap : IoError → SchedulerError) (log : List Event),
      op ≠ listTable → ∃ log', (discard (perform host op wrap) : Io Unit) log = .ok ((), log') := by
    intro op wrap log hop
    obtain ⟨reply, hreply⟩ := h log op hop
    have hok : perform host op wrap log = .ok (reply, log ++ [(op, true)]) :=
      bind_ok.2 ⟨_, _, attempt_ok.2 ⟨hreply, rfl⟩, pure_ok.2 ⟨rfl, rfl⟩⟩
    refine ⟨log ++ [(op, true)], ?_⟩
    change (perform host op wrap >>= fun _ => pure ()) log = _
    exact bind_ok.2 ⟨reply, _, hok, rfl⟩
  obtain ⟨log₁, hdir⟩ := hperform (.createDirAll dir) .createOutputDirectory log
    (by simp [listTable])
  have hstaging : stagingPath host dir pre log =
      .ok (join dir (pre ++ Nat.toDigits 10 (host.stagingNumber log)), log₁) :=
    bind_ok.2 ⟨log, log, rfl, bind_ok.2 ⟨(), log₁, hdir, rfl⟩⟩
  have hname := (stagingPath_ok hstaging).1
  obtain ⟨log₂, hwrite⟩ := hperform
    (.write (join dir (pre ++ Nat.toDigits 10 (host.stagingNumber log))) table)
    (.writeCronStaging _) log₁ (by simp [listTable])
  obtain ⟨reply, hreply⟩ := h log₂ (.run (text "crontab") [_]) (by simpa [listTable] using hname)
  refine ⟨_, bind_ok.2 ⟨_, log₁, hstaging, bind_ok.2 ⟨(), log₂, hwrite, bind_ok.2
    ⟨.ok reply, _, attempt_ok.2 ⟨hreply, rfl⟩, bind_ok.2 ⟨(), _, rfl, rfl⟩⟩⟩⟩⟩

end Spec

/-- A host where everything but the listing succeeds. -/
def obliging (around : Surroundings) (listed : Except IoError Reply) : Host where
  around
  homeVar := none
  xdgConfigHomeVar := none
  stagingNumber _ := 0
  answer _ op := if op = listTable then listed else .ok {}

theorem obliging_accepting (around : Surroundings) (listed : Except IoError Reply)
    (log : List Event) (op : Op) (hop : op ≠ listTable) :
    ∃ reply, (obliging around listed).accepting.answer log op = .ok reply := by
  simp only [Host.accepting, obliging, if_neg hop]
  split_ifs
  · exact ⟨_, rfl⟩
  · exact ⟨_, rfl⟩

theorem obliging_listTable (around : Surroundings) (listed : Except IoError Reply)
    (log : List Event) : (obliging around listed).answer log listTable = listed := by
  simp [obliging]

theorem accepting_submission {around : Surroundings} {listed : Except IoError Reply}
    {run : Host → Io Unit} {log' : List Event} (m : Machine)
    (h : run (obliging around listed).accepting [] = .ok ((), log')) :
    submission m (obliging around listed) run [] = .ok (tables m log') := by
  rw [submission, h]
  rfl

/-- Some host gets a table from `install_cron`, whatever the listing. -/
theorem exists_submission_installCron (around : Surroundings) (listed : Except IoError Reply)
    (files : Files) (dir : Path) (m : Machine) :
    ∃ ts, submission m (obliging around listed) (installCron · files dir) [] = .ok ts := by
  obtain ⟨log', hrun⟩ := submitTable_of_answer dir (text ".crontab-")
    (updatedTable (listed.toOption.getD {}).text
      ((lookupFile files (text "crontab.txt")).getD []) dir)
    (obliging_accepting around listed) ([] ++ [(listTable, listed.isOk)])
  refine ⟨tables m log', accepting_submission m ?_⟩
  rw [installCron_eq]
  refine bind_ok.2 ⟨listed, _, attempt_ok.2 ⟨?_, rfl⟩, hrun⟩
  rw [accepting_listTable, obliging_listTable]

/-- Some host gets a table from `uninstall` after a listing. -/
theorem exists_submission_uninstallCron (around : Surroundings) (listed : Except IoError Reply)
    (dir : Path) (m : Machine) :
    ∃ ts, submission m (obliging around listed) (uninstallCron · dir) [] = .ok ts := by
  have hlist : attempt (obliging around listed).accepting listTable [] =
      .ok (listed, [(listTable, listed.isOk)]) :=
    attempt_ok.2 ⟨by rw [accepting_listTable, obliging_listTable], rfl⟩
  cases listed with
  | error e => exact ⟨_, accepting_submission m (bind_ok.2 ⟨_, _, hlist, rfl⟩)⟩
  | ok reply =>
    obtain ⟨log', hrun⟩ := submitTable_of_answer dir (text ".symeraseme-crontab-")
      (removeCronBlock reply.text) (obliging_accepting around (.ok reply))
      [(listTable, true)]
    exact ⟨_, accepting_submission m (bind_ok.2 ⟨_, _, hlist, hrun⟩)⟩

/-! ### Tables as lines -/

def startMark : List Char := text "# Symaira EraseMe scheduled tasks"

def endMark : List Char := text "# End Symaira EraseMe scheduled tasks"

theorem startMark_ne_endMark : startMark ≠ endMark := by decide

theorem nil_ne_endMark : ([] : List Char) ≠ endMark := by decide

/-- The lines of a table outside of the marked blocks. -/
def unmarked (table : List Char) : List (List Char) :=
  Blocks.outside startMark endMark false (Text.lineList table)

/-- The start and end marks of a table are those of blocks. -/
def WellMarked (table : List Char) : Prop := Blocks.Paired startMark endMark (Text.lineList table)

/-- What is left of a table, as the pieces between the line breaks. -/
def keptPieces (table : List Char) : List (List Char) :=
  Blocks.strip startMark endMark false (Text.splitOn '\n' table)

theorem removeCronLines_eq (skip : Bool) (ls : List (List Char)) :
    removeCronLines skip ls = Blocks.strip startMark endMark skip ls := by
  induction ls generalizing skip with
  | nil => rfl
  | cons l ls ih =>
    simp only [removeCronLines, Blocks.strip, ih]
    rfl

theorem removeCronBlock_eq (table : List Char) :
    removeCronBlock table = ['\n'].intercalate (keptPieces table) := by
  rw [removeCronBlock, removeCronLines_eq, keptPieces]

theorem newline_not_mem_keptPieces (table : List Char) : ∀ l ∈ keptPieces table, '\n' ∉ l := by
  intro l hl
  rw [keptPieces, Blocks.strip_eq startMark_ne_endMark] at hl
  have hclosed := (Blocks.outside_sublist _ _).subset (List.mem_filter.1 hl).1
  refine not_mem_splitOn '\n' table l ?_
  have hall : Blocks.closed startMark endMark (Text.splitOn '\n' table) ++
      Blocks.unclosed startMark endMark (Text.splitOn '\n' table) = Text.splitOn '\n' table :=
    Blocks.closed_append_unclosed _
  rw [← hall]
  exact List.mem_append_left _ hclosed

theorem newline_not_mem_unmarked (table : List Char) : ∀ l ∈ unmarked table, '\n' ∉ l := by
  intro l hl
  have hmem := (Blocks.outside_sublist _ _).subset hl
  refine not_mem_splitOn '\n' table l ?_
  rw [Text.lineList, Text.dropBlank] at hmem
  split_ifs at hmem
  · exact List.mem_of_mem_dropLast hmem
  · exact hmem

/-- Ending the last line of joined lines. -/
theorem terminated_intercalate {ls : List (List Char)} (hls : ∀ l ∈ ls, '\n' ∉ l) :
    terminated (['\n'].intercalate ls) = unlines (Text.dropBlank ls) := by
  rcases List.eq_nil_or_concat ls with rfl | ⟨a, r, rfl⟩
  · rfl
  · rw [List.concat_eq_append] at hls ⊢
    rw [Text.intercalate_concat, Text.dropBlank, List.getLast?_concat, List.dropLast_concat]
    by_cases hr : r = []
    · subst hr
      rw [if_pos rfl, List.append_nil, terminated, if_neg]
      · rfl
      · by_cases ha : a = []
        · simp [ha]
        · simp [Text.getLast?_endLines ha]
    · have hlast : (Text.endLines a ++ r).getLast? ≠ some '\n' := by
        rw [List.getLast?_append_of_ne_nil _ hr]
        exact fun h => hls r (by simp) (List.mem_of_getLast? h)
      rw [if_neg (by simpa using hr), terminated, if_pos ⟨by simp [hr], hlast⟩]
      simp [unlines, Text.endLines]

/-- The pieces of a table whose last line is ended. -/
theorem splitOn_ended {table : List Char} (h : table.getLast? = some '\n') :
    Text.splitOn '\n' table = Text.lineList table ++ [[]] := by
  obtain ⟨ls, r, hls, hr, rfl⟩ := Text.eq_endLines_append table
  cases hnil : r with
  | nil =>
    rw [List.append_nil, Text.lineList_endLines hls, ← List.append_nil (Text.endLines ls),
      Text.splitOn_endLines hls]
    rfl
  | cons c s =>
    refine absurd (List.mem_of_getLast? ?_) hr
    rwa [List.getLast?_append_of_ne_nil _ (by simp [hnil])] at h

/-- The pieces of a table whose last line is not ended. -/
theorem splitOn_unended {table : List Char} (hne : table ≠ [])
    (h : table.getLast? ≠ some '\n') : Text.splitOn '\n' table = Text.lineList table := by
  obtain ⟨ls, r, hls, hr, rfl⟩ := Text.eq_endLines_append table
  have hnil : r ≠ [] := by
    rintro rfl
    rw [List.append_nil] at h hne
    exact h (Text.getLast?_endLines fun hnil => hne (Text.endLines_eq_nil.2 hnil))
  rw [Text.lineList_append hls hr hnil, Text.splitOn_endLines hls, Paths.splitOn_of_not_mem hr]

section Preserved

variable {table : List Char}

theorem keptPieces_ended (hmarked : WellMarked table) (h : table.getLast? = some '\n') :
    keptPieces table = unmarked table ++ [[]] := by
  have hconcat : Blocks.outside startMark endMark false (Text.lineList table ++ [[]]) =
      Blocks.outside startMark endMark false (Text.lineList table) ++ [[]] :=
    Blocks.outside_concat nil_ne_endMark false (by simp)
  have hpaired : Blocks.Paired startMark endMark (Text.lineList table ++ [[]]) := by
    rw [Blocks.Paired, hconcat, List.mem_append, List.mem_append, not_or, not_or]
    exact ⟨⟨hmarked.1, by decide⟩, hmarked.2, by decide⟩
  rw [keptPieces, splitOn_ended h, Blocks.strip_of_paired startMark_ne_endMark hpaired, hconcat,
    unmarked]

theorem keptPieces_unended (hmarked : WellMarked table) (hne : table ≠ [])
    (h : table.getLast? ≠ some '\n') : keptPieces table = unmarked table := by
  rw [keptPieces, splitOn_unended hne h, Blocks.strip_of_paired startMark_ne_endMark hmarked,
    unmarked]

/-- The lines that are put before the new block. -/
theorem dropBlank_keptPieces (hmarked : WellMarked table) :
    Text.dropBlank (keptPieces table) =
      if table.getLast? = some '\n' then unmarked table else Text.dropBlank (unmarked table) := by
  split_ifs with h
  · rw [keptPieces_ended hmarked h]
    simp [Text.dropBlank]
  · by_cases hne : table = []
    · subst hne
      decide
    · rw [keptPieces_unended hmarked hne h]

end Preserved

/-! ### The rest of a table -/

/-- A run submits this table when `crontab -l` puts out that one. -/
def Submits (run : Host → Io Unit) (existing table : List Char) : Prop :=
  ∀ (host : Host) (m : Machine) (log : List Event) (ts : List (List Char)),
    (host.answer log listTable).map (·.text) = .ok existing →
      submission m host run log = .ok ts → ts = [table]

/-- Lines of one block. -/
def OneBlock (ls : List (List Char)) : Prop :=
  ∃ body, ls = startMark :: (body ++ [endMark]) ∧ startMark ∉ body ∧ endMark ∉ body

/-- Installation keeps the lines outside of the marked blocks and adds one block, once, and
uninstallation gives the lines back. -/
structure Preserved (install uninstall : Host → Io Unit) (existing : List Char)
    (block : List (List Char)) : Prop where
  oneBlock : OneBlock block
  noMark : startMark ∉ unmarked existing ∧ endMark ∉ unmarked existing
  installed : Submits install existing (unlines (unmarked existing ++ block))
  again : Submits install (unlines (unmarked existing ++ block))
    (unlines (unmarked existing ++ block))
  uninstalled : Submits uninstall (unlines (unmarked existing ++ block))
    (unlines (unmarked existing))

section Block

variable {hour minute : ℤ} (hh : 0 ≤ hour) (hm : 0 ≤ minute) {dir : Path} (hdir : '\n' ∉ dir)

/-- A line that ends in another character than the marks is none. -/
theorem ne_marks_of_getLast? {l : List Char} {c : Char} (h : l.getLast? = some c) (hc : c ≠ 's') :
    l ≠ startMark ∧ l ≠ endMark := by
  have hlast : startMark.getLast? = some 's' ∧ endMark.getLast? = some 's' := by decide
  constructor
  · rintro rfl
    exact hc (Option.some.inj (h.symm.trans hlast.1))
  · rintro rfl
    exact hc (Option.some.inj (h.symm.trans hlast.2))

theorem oneBlock_cronLines (hour minute : ℤ) (dir : Path) :
    OneBlock (cronLines hour minute dir) := by
  refine ⟨((cronLines hour minute dir).drop 1).dropLast, rfl, ?_⟩
  have hcommand : ∀ job : Job, cronTime hour minute job ++ wrapperPath dir job ≠ startMark ∧
      cronTime hour minute job ++ wrapperPath dir job ≠ endMark := by
    intro job
    have hscript : job.script ≠ [] ∧ job.script.getLast? = some 'h' := by cases job <;> decide
    refine ne_marks_of_getLast? (c := 'h') ?_ (by decide)
    rw [wrapperPath, List.getLast?_append_of_ne_nil _ (by simp),
      List.getLast?_append_of_ne_nil _ (List.cons_ne_nil _ _),
      List.getLast?_cons_of_ne_nil hscript.1]
    exact hscript.2
  have hcomment : ('#' :: cronComment hour minute) ≠ startMark ∧
      ('#' :: cronComment hour minute) ≠ endMark := by
    refine ne_marks_of_getLast? (c := ')') ?_ (by decide)
    rw [cronComment, List.getLast?_cons_of_ne_nil (by simp), List.getLast?_concat]
  have hclosed : ∀ l ∈ [text "# Generated by symeraseme generate-scheduler (Go)", text "",
      text "# Poll inbox (hourly wrapper checks configured times)",
      text "# Re-scan (quarterly on 1st of Jan, Apr, Jul, Oct)"], l ≠ startMark ∧ l ≠ endMark := by
    repeat rw [text_ofList]
    decide
  have hall : ∀ l ∈ ((cronLines hour minute dir).drop 1).dropLast,
      l ≠ startMark ∧ l ≠ endMark := by
    simp only [List.forall_mem_cons] at hclosed
    obtain ⟨hgenerated, hempty, hpoll, hrescan, hnone⟩ := hclosed
    simp only [cronLines, List.drop_succ_cons, List.drop_zero, List.dropLast_cons_cons,
      List.dropLast_singleton, List.forall_mem_cons]
    exact ⟨hgenerated, hempty, hcomment, hcommand .tick, hempty, hpoll, hcommand .poll, hempty,
      hrescan, hcommand .rescan, hempty, hnone⟩
  exact ⟨fun h => (hall _ h).1 rfl, fun h => (hall _ h).2 rfl⟩

include hh hm hdir

theorem newline_not_mem_cronLines : ∀ l ∈ cronLines hour minute dir, '\n' ∉ l := by
  have hcommand : ∀ job : Job, '\n' ∉ cronTime hour minute job ++ wrapperPath dir job := by
    intro job
    rw [wrapperPath, List.mem_append, List.mem_append, not_or, not_or]
    exact ⟨not_mem_cronTime hh hm rfl (by decide) job, hdir,
      fun hmem => ((script_plain job).2.2 _ hmem).2.2.2 rfl⟩
  have hcomment : '\n' ∉ '#' :: cronComment hour minute := by
    rw [List.mem_cons, not_or]
    exact ⟨by decide, not_mem_cronComment hh hm rfl (by decide)⟩
  have hclosed : ∀ l ∈ [text "# Symaira EraseMe scheduled tasks",
      text "# Generated by symeraseme generate-scheduler (Go)", text "",
      text "# Poll inbox (hourly wrapper checks configured times)",
      text "# Re-scan (quarterly on 1st of Jan, Apr, Jul, Oct)",
      text "# End Symaira EraseMe scheduled tasks"], '\n' ∉ l := by
    repeat rw [text_ofList]
    decide
  simp only [List.forall_mem_cons] at hclosed
  obtain ⟨hstart, hgenerated, hempty, hpoll, hrescan, hend, hnone⟩ := hclosed
  simp only [cronLines, List.forall_mem_cons]
  exact ⟨hstart, hgenerated, hempty, hcomment, hcommand .tick, hempty, hpoll, hcommand .poll,
    hempty, hrescan, hcommand .rescan, hempty, hend, hnone⟩

end Block

section Tables

variable {cfg : Config} {files : Files} (hfiles : Generated .cron cfg files) {dir tempDir : Path}
  (hdir : '\n' ∉ dir) {existing : List Char}

/-- The lines of the block that an installation adds. -/
def blockLines (cfg : Config) (dir : Path) : List (List Char) :=
  cronLines cfg.tickHour cfg.tickMinute dir

include hfiles

theorem updatedTable_eq (existing : List Char) (dir : Path) :
    updatedTable existing ((lookupFile files (text "crontab.txt")).getD []) dir =
      unlines (Text.dropBlank (keptPieces existing) ++ blockLines cfg dir) := by
  rw [lookupFile_of_mem hfiles.nodup (hfiles.table rfl), Option.getD_some, updatedTable,
    removeCronBlock_eq, terminated_intercalate (newline_not_mem_keptPieces existing),
    replaceAll_cronTab hfiles.hour hfiles.minute, unlines_append]
  rfl

theorem submits_install (existing : List Char) (dir : Path) :
    Submits (installCron · files dir) existing
      (unlines (Text.dropBlank (keptPieces existing) ++ blockLines cfg dir)) := by
  intro host m log ts hlist hsubmission
  rw [submission_installCron hsubmission, ← updatedTable_eq hfiles]
  cases hanswer : host.answer log listTable with
  | error e => simp [hanswer, Except.map] at hlist
  | ok reply =>
    rw [hanswer] at hlist
    rw [← Except.ok.inj hlist]
    rfl

/-- No other table is submitted. -/
theorem submits_install_iff (existing table : List Char) (dir : Path) :
    Submits (installCron · files dir) existing table ↔
      table = unlines (Text.dropBlank (keptPieces existing) ++ blockLines cfg dir) := by
  refine ⟨fun h => ?_, fun h => h ▸ submits_install hfiles existing dir⟩
  have around : Surroundings := ⟨.cron, .ok [], .ok [], .ok []⟩
  obtain ⟨ts, hts⟩ := exists_submission_installCron around (.ok { text := existing }) files dir
    ⟨fun _ => none, []⟩
  have hlist : ((obliging around (.ok { text := existing })).answer [] listTable).map (·.text) =
      .ok existing := by
    rw [obliging_listTable]
    rfl
  have hone := h _ _ _ _ hlist hts
  rw [submits_install hfiles existing dir _ _ _ _ hlist hts] at hone
  exact (List.cons.inj hone).1.symm

omit hfiles in
theorem submits_uninstall {table : List Char} (existing : List Char) (dir : Path)
    (h : removeCronBlock existing = table) : Submits (uninstallCron · dir) existing table := by
  intro host m log ts hlist hsubmission
  rw [submission_uninstallCron hsubmission]
  cases hanswer : host.answer log listTable with
  | error e => simp [hanswer, Except.map] at hlist
  | ok reply =>
    rw [hanswer] at hlist
    rw [← h, ← Except.ok.inj hlist]

include hdir

/-- A table that an installation has written. -/
theorem written {kept : List (List Char)} (hline : ∀ l ∈ kept, '\n' ∉ l)
    (hmark : startMark ∉ kept ∧ endMark ∉ kept) :
    keptPieces (unlines (kept ++ blockLines cfg dir)) = kept ++ [[]] := by
  have hlines : ∀ l ∈ kept ++ blockLines cfg dir, '\n' ∉ l := by
    intro l hl
    rcases List.mem_append.1 hl with hl | hl
    · exact hline l hl
    · exact newline_not_mem_cronLines hfiles.hour hfiles.minute hdir l hl
  obtain ⟨body, hbody, -, hend⟩ := oneBlock_cronLines cfg.tickHour cfg.tickMinute dir
  have hunmarked : unmarked (unlines (kept ++ blockLines cfg dir)) = kept := by
    rw [unmarked, show unlines _ = Text.endLines _ from rfl, Text.lineList_endLines hlines,
      Blocks.outside_append hmark.1, blockLines, hbody, Blocks.outside_block hend]
    exact List.append_nil kept
  have hended : (unlines (kept ++ blockLines cfg dir)).getLast? = some '\n' :=
    Text.getLast?_endLines (by simp [blockLines, cronLines])
  have hwell : WellMarked (unlines (kept ++ blockLines cfg dir)) := by
    change startMark ∉ unmarked _ ∧ endMark ∉ unmarked _
    rw [hunmarked]
    exact hmark
  rw [keptPieces_ended hwell hended, hunmarked]

/-- Installing again, and taking the installation back. -/
theorem written_again {kept : List (List Char)} (hline : ∀ l ∈ kept, '\n' ∉ l)
    (tempDir : Path) (hmark : startMark ∉ kept ∧ endMark ∉ kept) :
    Submits (installCron · files dir) (unlines (kept ++ blockLines cfg dir))
        (unlines (kept ++ blockLines cfg dir)) ∧
      Submits (uninstallCron · tempDir) (unlines (kept ++ blockLines cfg dir)) (unlines kept) := by
  have hpieces := written hfiles hdir hline hmark
  constructor
  · rw [submits_install_iff hfiles, hpieces]
    simp [Text.dropBlank]
  · refine submits_uninstall _ _ ?_
    rw [removeCronBlock_eq, hpieces, Text.intercalate_concat, List.append_nil]
    rfl

end Tables

/-- The rest of a table stays, and comes back, unless the text breaks off in the end mark of a block
and the last line outside of the blocks is empty: that line is then lost. -/
theorem preserved_iff {around : Surroundings} {cfg : Config} {files : Files} {dir tempDir : Path}
    {existing : List Char} (hfiles : generate around cfg = .ok files)
    (hplatform : cfg.platform.getD around.platform = .cron) (hdir : '\n' ∉ dir)
    (hmarked : WellMarked existing) :
    Preserved (installCron · files dir) (uninstallCron · tempDir) existing (blockLines cfg dir) ↔
      existing.getLast? = some '\n' ∨ (unmarked existing).getLast? ≠ some [] := by
  have hgenerated := generate_ok hfiles
  rw [hplatform] at hgenerated
  have hline := newline_not_mem_unmarked existing
  have hinstalled : Submits (installCron · files dir) existing
      (unlines (unmarked existing ++ blockLines cfg dir)) ↔
        existing.getLast? = some '\n' ∨ (unmarked existing).getLast? ≠ some [] := by
    rw [submits_install_iff hgenerated, dropBlank_keptPieces hmarked, unlines_append,
      unlines_append, List.append_left_inj]
    split_ifs with hended
    · simp [hended]
    · rw [Text.dropBlank]
      split_ifs with hblank
      · refine iff_of_false (fun h => ?_) (by simp [hended, hblank])
        obtain ⟨a, ha⟩ := List.getLast?_eq_some_iff.1 hblank
        rw [ha, List.dropLast_concat, unlines_append] at h
        simpa [unlines] using congrArg List.length h
      · exact iff_of_true rfl (Or.inr hblank)
  rw [← hinstalled]
  obtain ⟨hagain, huninstalled⟩ := written_again hgenerated hdir hline tempDir hmarked
  exact ⟨fun h => h.installed,
    fun h => ⟨oneBlock_cronLines _ _ _, hmarked, h, hagain, huninstalled⟩⟩

def sampleConfig : Config := { platform := some .cron }

theorem sampleFiles : ∃ files, generate sampleHost.around sampleConfig = .ok files := by
  have hok : (generate sampleHost.around sampleConfig).isOk = true := by decide
  cases h : generate sampleHost.around sampleConfig with
  | ok files => exact ⟨files, rfl⟩
  | error e =>
    rw [h] at hok
    cases hok

theorem preserved_sample : ∃ files, generate sampleHost.around sampleConfig = .ok files ∧
    Preserved (installCron · files (text "/srv/erase")) (uninstallCron · (text "/tmp"))
      (text "MAILTO=jane\n\n") (blockLines sampleConfig (text "/srv/erase")) := by
  obtain ⟨files, hfiles⟩ := sampleFiles
  have hmarked : WellMarked (text "MAILTO=jane\n\n") := by
    unfold WellMarked
    decide
  exact ⟨files, hfiles, (preserved_iff hfiles rfl (by decide) hmarked).2 (Or.inl (by decide))⟩

/-- A blank line before an old block at the very end of the text is lost. -/
theorem blank_line_lost : ¬ ∀ (around : Surroundings) (cfg : Config) (files : Files)
    (dir tempDir : Path) (existing : List Char), generate around cfg = .ok files →
      cfg.platform.getD around.platform = .cron → '\n' ∉ dir → WellMarked existing →
      Preserved (installCron · files dir) (uninstallCron · tempDir) existing
        (blockLines cfg dir) := by
  intro h
  obtain ⟨files, hfiles⟩ := sampleFiles
  have hmarked : WellMarked (text "MAILTO=jane\n\n# Symaira EraseMe scheduled tasks\n" ++
      text "# End Symaira EraseMe scheduled tasks") := by
    unfold WellMarked
    decide +kernel
  have hinstalled := (h _ _ _ (text "/srv/erase") (text "/tmp") _ hfiles rfl (by decide)
    hmarked).installed
  rw [submits_install_iff (generate_ok hfiles), unlines_append, unlines_append,
    List.append_left_inj] at hinstalled
  exact absurd hinstalled (by decide +kernel)

/-! ### Lost lines -/

/-- Every line of a table that is in no complete block is a line of what a run submits. -/
def LinesKept (run : Host → Io Unit) (table : List Char) (outcome : Except IoError Output) : Prop :=
  ∀ (host : Host) (m : Machine) (log : List Event) (ts : List (List Char)),
    host.Lists log outcome → submission m host run log = .ok ts →
      ∀ t ∈ ts, ∀ l ∈ unmarked table, l ∈ Text.lineList t

/-- The lines of a printed table that are in no complete block and behind no unclosed start mark,
less the end marks and an empty line at the very end. -/
def standing (printed : List Char) : List (List Char) :=
  Text.dropBlank ((Blocks.outside startMark endMark false
    (Blocks.closed startMark endMark (Text.splitOn '\n' printed))).filter (· ≠ endMark))

theorem standing_eq (printed : List Char) : standing printed = Text.dropBlank (keptPieces printed) := by
  rw [standing, keptPieces, Blocks.strip_eq startMark_ne_endMark]

theorem lineList_removeCronBlock (printed : List Char) :
    Text.lineList (removeCronBlock printed) = standing printed := by
  rw [removeCronBlock_eq, Text.lineList_intercalate (newline_not_mem_keptPieces printed),
    standing_eq]

theorem newline_not_mem_standing (printed : List Char) : ∀ l ∈ standing printed, '\n' ∉ l := by
  intro l hl
  rw [standing_eq, Text.dropBlank] at hl
  refine newline_not_mem_keptPieces printed l ?_
  split_ifs at hl
  · exact List.mem_of_mem_dropLast hl
  · exact hl

/-- The host that answers the listing with an outcome. -/
theorem obliging_lists (around : Surroundings) (outcome : Except IoError Output)
    (log : List Event) :
    (obliging around ((execRun outcome).map fun b => { text := Utf8.lossy b })).Lists log
      outcome := by
  rw [Host.Lists, obliging_listTable]
  cases execRun outcome <;> rfl

section LinesKept

variable {cfg : Config} {files : Files} (hfiles : Generated .cron cfg files) {dir tempDir : Path}
  {outcome : Except IoError Output}

/-- The lines of the block, for any directory. -/
theorem lineList_append_block {kept : List (List Char)} (hline : ∀ l ∈ kept, '\n' ∉ l)
    (cfg : Config) (dir : Path) :
    Text.lineList (unlines (kept ++ blockLines cfg dir)) =
      kept ++ Text.lineList (unlines (blockLines cfg dir)) := by
  have hne := Paths.splitOn_ne_nil '\n' (unlines (blockLines cfg dir))
  rw [unlines_append, Text.lineList, show unlines kept = Text.endLines kept from rfl,
    Text.splitOn_endLines hline, Text.lineList, Text.dropBlank, Text.dropBlank,
    List.getLast?_append_of_ne_nil _ hne, List.dropLast_append_of_ne_nil hne]
  split_ifs <;> rfl

include hfiles

/-- What `install_cron` submits, as lines. -/
theorem linesKept_install_iff (table : List Char) :
    LinesKept (installCron · files dir) table outcome ↔ ∀ l ∈ unmarked table,
      l ∈ (match execRun outcome with
        | .error _ => []
        | .ok printed => standing (Utf8.lossy printed)) ++
          Text.lineList (unlines (blockLines cfg dir)) := by
  have hlines : ∀ (host : Host) (log : List Event), host.Lists log outcome →
      Text.lineList (updatedTable ((host.answer log listTable).toOption.getD {}).text
        ((lookupFile files (text "crontab.txt")).getD []) dir) =
      (match execRun outcome with
        | .error _ => []
        | .ok printed => standing (Utf8.lossy printed)) ++
          Text.lineList (unlines (blockLines cfg dir)) := by
    intro host log hlists
    rw [updatedTable_eq hfiles, ← standing_eq, lineList_append_block (newline_not_mem_standing _)]
    congr 1
    unfold Host.Lists at hlists
    cases hanswer : host.answer log listTable with
    | error e =>
      rw [hanswer] at hlists
      cases hrun : execRun outcome with
      | error e =>
        change standing [] = []
        decide
      | ok printed =>
        rw [hrun] at hlists
        cases hlists
    | ok reply =>
      rw [hanswer] at hlists
      cases hrun : execRun outcome with
      | error e =>
        rw [hrun] at hlists
        cases hlists
      | ok printed =>
        rw [hrun] at hlists
        exact congrArg standing (Except.ok.inj hlists)
  constructor
  · intro h
    have hlists := obliging_lists ⟨.cron, .ok [], .ok [], .ok []⟩ outcome []
    obtain ⟨ts, hts⟩ := exists_submission_installCron ⟨.cron, .ok [], .ok [], .ok []⟩
      ((execRun outcome).map fun b => { text := Utf8.lossy b }) files dir ⟨fun _ => none, []⟩
    have hkept := h _ _ _ _ hlists hts
    rw [submission_installCron hts, List.forall_mem_singleton, hlines _ _ hlists] at hkept
    exact hkept
  · intro h host m log ts hlists hts
    rw [submission_installCron hts, List.forall_mem_singleton, hlines _ _ hlists]
    exact h

omit hfiles in
/-- What `uninstall` submits, as lines. -/
theorem linesKept_uninstall_iff (table : List Char) :
    LinesKept (uninstallCron · tempDir) table outcome ↔
      ∀ printed, execRun outcome = .ok printed →
        ∀ l ∈ unmarked table, l ∈ standing (Utf8.lossy printed) := by
  constructor
  · intro h printed hrun
    have hlists := obliging_lists ⟨.cron, .ok [], .ok [], .ok []⟩ outcome []
    obtain ⟨ts, hts⟩ := exists_submission_uninstallCron ⟨.cron, .ok [], .ok [], .ok []⟩
      ((execRun outcome).map fun b => { text := Utf8.lossy b }) tempDir ⟨fun _ => none, []⟩
    have hkept := h _ _ _ _ hlists hts
    rw [submission_uninstallCron hts, obliging_listTable, hrun] at hkept
    rw [← lineList_removeCronBlock]
    exact hkept _ List.mem_cons_self
  · intro h host m log ts hlists hts t ht
    rw [submission_uninstallCron hts] at ht
    unfold Host.Lists at hlists
    cases hanswer : host.answer log listTable with
    | error e =>
      rw [hanswer] at ht
      cases ht
    | ok reply =>
      rw [hanswer] at hlists ht
      cases hrun : execRun outcome with
      | error e =>
        rw [hrun] at hlists
        cases hlists
      | ok printed =>
        rw [hrun] at hlists
        have htext : reply.text = Utf8.lossy printed := Except.ok.inj hlists
        rw [List.mem_singleton.1 ht, lineList_removeCronBlock, htext]
        exact h printed hrun

end LinesKept

/-- All lines outside of blocks stand exactly when the marks are in order, and an empty line at the
end is ended or not the only empty one. -/
theorem unmarked_subset_standing_iff (table : List Char) :
    (∀ l ∈ unmarked table, l ∈ standing table) ↔ WellMarked table ∧
      (table.getLast? = some '\n' ∨ (unmarked table).getLast? ≠ some [] ∨
        [] ∈ (unmarked table).dropLast) := by
  have hwell : (∀ l ∈ unmarked table, l ∈ standing table) → WellMarked table := by
    intro h
    have hmem : ∀ l ∈ standing table, l ∈ (Blocks.outside startMark endMark false
        (Blocks.closed startMark endMark (Text.splitOn '\n' table))).filter (· ≠ endMark) := by
      intro l hl
      rw [standing, Text.dropBlank] at hl
      split_ifs at hl
      · exact List.mem_of_mem_dropLast hl
      · exact hl
    constructor
    · intro hstart
      exact Blocks.first_not_mem_closed startMark_ne_endMark _
        (List.mem_filter.1 (hmem _ (h _ hstart))).1
    · intro hend
      simpa using (List.mem_filter.1 (hmem _ (h _ hend))).2
  rw [← and_iff_right_of_imp hwell]
  refine and_congr_right fun hmarked => ?_
  rw [standing_eq, dropBlank_keptPieces hmarked]
  split_ifs with hended
  · simp [hended]
  · rw [Text.dropBlank]
    split_ifs with hblank
    · simp only [hended, hblank, ne_eq, not_true_eq_false, false_or]
      constructor
      · intro h
        exact h [] (List.mem_of_getLast? hblank)
      · intro hmem l hl
        obtain ⟨a, ha⟩ := List.getLast?_eq_some_iff.1 hblank
        rw [ha] at hl hmem ⊢
        rw [List.dropLast_concat] at hmem ⊢
        rcases List.mem_append.1 hl with hl | hl
        · exact hl
        · exact List.mem_singleton.1 hl ▸ hmem
    · exact iff_of_true (fun l hl => hl) (Or.inr (Or.inl hblank))

/-- No line of a table gets lost exactly when each of those outside of blocks stands in what
`crontab -l` has printed; when the listing fails, only those stay that the new block has itself.
If what is printed is the table, this is a matter of its marks. -/
theorem linesKept_iff {around : Surroundings} {cfg : Config} {files : Files} {dir tempDir : Path}
    (hfiles : generate around cfg = .ok files)
    (hplatform : cfg.platform.getD around.platform = .cron) (table : List Char)
    (outcome : Except IoError Output) :
    ((LinesKept (installCron · files dir) table outcome ∧
        LinesKept (uninstallCron · tempDir) table outcome) ↔
      match execRun outcome with
      | .error _ => ∀ l ∈ unmarked table, l ∈ Text.lineList (unlines (blockLines cfg dir))
      | .ok printed => ∀ l ∈ unmarked table, l ∈ standing (Utf8.lossy printed)) ∧
    ((∀ l ∈ unmarked table, l ∈ standing table) ↔ WellMarked table ∧
      (table.getLast? = some '\n' ∨ (unmarked table).getLast? ≠ some [] ∨
        [] ∈ (unmarked table).dropLast)) := by
  have hgenerated := generate_ok hfiles
  rw [hplatform] at hgenerated
  refine ⟨?_, unmarked_subset_standing_iff table⟩
  rw [linesKept_install_iff hgenerated, linesKept_uninstall_iff]
  cases hrun : execRun outcome with
  | error e =>
    simp only [List.nil_append]
    exact and_iff_left fun printed h => by cases h
  | ok printed =>
    simp only [Except.ok.injEq, forall_eq']
    exact ⟨fun h => h.2, fun h => ⟨fun l hl => List.mem_append_left _ (h l hl), h⟩⟩

/-- `crontab -l` prints a table and nothing else. -/
def printing (table : List Char) : Except IoError Output :=
  .ok { stdout := Utf8.encode (String.ofList table), stderr := [], code := some 0 }

theorem execRun_printing (table : List Char) :
    (execRun (printing table)).map Utf8.lossy = .ok table := by
  change Except.ok (Utf8.lossy (Utf8.encode (String.ofList table) ++ [])) = _
  rw [List.append_nil, Utf8.lossy_encode]

theorem linesKept_sample : ∃ files, generate sampleHost.around sampleConfig = .ok files ∧
    LinesKept (installCron · files (text "/srv/erase")) (text "0 5 * * * backup\n")
      (printing (text "0 5 * * * backup\n")) ∧
    LinesKept (uninstallCron · (text "/tmp")) (text "0 5 * * * backup\n")
      (printing (text "0 5 * * * backup\n")) := by
  obtain ⟨files, hfiles⟩ := sampleFiles
  obtain ⟨hkept, hmarks⟩ := @linesKept_iff _ _ _ (text "/srv/erase") (text "/tmp")
    hfiles rfl (text "0 5 * * * backup\n") (printing (text "0 5 * * * backup\n"))
  have hmarked : WellMarked (text "0 5 * * * backup\n") := by
    unfold WellMarked
    decide
  have hprinted := execRun_printing (text "0 5 * * * backup\n")
  refine ⟨files, hfiles, hkept.2 ?_⟩
  cases hrun : execRun (printing (text "0 5 * * * backup\n")) with
  | error e =>
    rw [hrun] at hprinted
    cases hprinted
  | ok printed =>
    rw [hrun] at hprinted
    dsimp only
    rw [show Utf8.lossy printed = _ from Except.ok.inj hprinted]
    exact hmarks.2 ⟨hmarked, Or.inl (by decide)⟩

/-- When the listing fails, `install` leaves only its own block; behind a start mark without an end
mark, `uninstall` leaves nothing. -/
theorem lines_lost : ∃ files, generate sampleHost.around sampleConfig = .ok files ∧
    ¬ LinesKept (installCron · files (text "/srv/erase")) (text "0 5 * * * backup\n")
      (.ok { stdout := [], stderr := [], code := some 1 }) ∧
    ¬ LinesKept (uninstallCron · (text "/tmp"))
      (text "# Symaira EraseMe scheduled tasks\n0 5 * * * backup\n")
      (printing (text "# Symaira EraseMe scheduled tasks\n0 5 * * * backup\n")) := by
  obtain ⟨files, hfiles⟩ := sampleFiles
  refine ⟨files, hfiles, ?_, ?_⟩
  · rw [linesKept_install_iff (generate_ok hfiles)]
    intro h
    exact absurd (h (text "0 5 * * * backup") (by decide)) (by decide +kernel)
  · rw [linesKept_uninstall_iff]
    intro h
    have hprinted := execRun_printing
      (text "# Symaira EraseMe scheduled tasks\n0 5 * * * backup\n")
    cases hrun : execRun (printing
        (text "# Symaira EraseMe scheduled tasks\n0 5 * * * backup\n")) with
    | error e =>
      rw [hrun] at hprinted
      cases hprinted
    | ok printed =>
      rw [hrun] at hprinted
      have hline := h printed hrun (text "0 5 * * * backup") (by decide +kernel)
      rw [show Utf8.lossy printed = _ from Except.ok.inj hprinted] at hline
      exact absurd hline (by decide +kernel)

end EraseMe.Scheduler
