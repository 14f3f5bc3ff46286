import EraseMe.Library.ShellScript
import EraseMe.Scheduler

/-!
# The wrapper scripts

`wrapper` and `pollWrapper` quote the paths and the arguments that they put into a script.  Read by
the rules of the shell, each of these is one word again, and nothing is added to it
(`scriptWords_wrappers`).
-/

namespace EraseMe.Scheduler

open Paths CommandLine Shell

/-! ### Quoting -/

theorem replaceAll_quote (v : List Char) :
    Text.replaceAll v ['\''] (text "'\\''") = Shell.quoted v := by
  have hsplice : text "'\\''" = ['\'', '\\', '\'', '\''] := by decide
  induction v with
  | nil => rfl
  | cons c v ih =>
    rw [Shell.quoted, List.flatMap_cons, ← Shell.quoted]
    by_cases hc : c = '\''
    · subst hc
      have htoken : Text.replaceAll (['\''] ++ v) ['\''] (text "'\\''") =
          text "'\\''" ++ Text.replaceAll v ['\''] (text "'\\''") :=
        Text.replaceAll_token (by simp)
      rw [List.singleton_append] at htoken
      rw [htoken, ih, if_pos rfl, hsplice]
    · rw [Text.replaceAll_cons (by simpa using Ne.symm hc), ih, if_neg hc, List.singleton_append]

theorem shellQuote_eq (v : List Char) : shellQuote v = '\'' :: (Shell.quoted v ++ ['\'']) := by
  rw [shellQuote, replaceAll_quote]

/-- A command before quoted arguments. -/
def commandLine (command : List Char) (args : List (List Char)) : List Char :=
  command ++ args.flatMap fun arg => ' ' :: shellQuote arg

theorem wordsAfter_shellQuote (v s : List Char) :
    wordsAfter .start none (shellQuote v ++ s) = wordsAfter .word (some v) s := by
  rw [shellQuote_eq, List.cons_append, List.append_assoc, List.singleton_append,
    wordsAfter_quoted]

/-- Each quoted argument is a word. -/
theorem words_commandLine {command : List Char} (args : List (List Char))
    (hplain : ∀ c ∈ command, isPlain c = true) (hne : command ≠ [])
    (hhash : command.head? ≠ some '#') (htilde : command.head? ≠ some '~') :
    words (commandLine command args) = some (command :: args) := by
  have hargs : ∀ w, wordsAfter .word (some w) (args.flatMap fun arg => ' ' :: shellQuote arg) =
      some (w :: args) := by
    induction args with
    | nil => exact wordsAfter_word_nil
    | cons arg args ih =>
      intro w
      rw [List.flatMap_cons, List.cons_append, wordsAfter_blank, wordsAfter_shellQuote, ih]
      rfl
  rw [words_eq, commandLine, wordsAfter_word hplain hne hhash htilde, hargs]

theorem run_shellQuote {p : Place} (hp : p.step '\'' = some .single) (v s : List Char) :
    run p (shellQuote v ++ s) = run .word s := by
  rw [shellQuote_eq, List.cons_append, List.append_assoc, run, hp, Option.bind_some, run_append,
    run_quoted]
  rfl

/-- No line ends in a quoted argument. -/
theorem isLine_commandLine {command : List Char} (args : List (List Char))
    (h : run .start command = some .word) : IsLine (commandLine command args) := by
  refine ⟨.word, ?_, rfl⟩
  rw [commandLine, run_append, h, Option.bind_some]
  induction args with
  | nil => rfl
  | cons arg args ih =>
    rw [List.flatMap_cons, List.cons_append, run]
    change run .start _ = _
    rw [run_shellQuote rfl, ih]

/-! ### The wrapper -/

def headerLines (title : List Char) : List (List Char) :=
  [text "#!/usr/bin/env bash", title, text "# Generated by symeraseme generate-scheduler (Go)",
    text "set -euo pipefail", []]

def wrapperTitle : List Char := text "# Symaira EraseMe scheduled task wrapper"

def pollTitle : List Char := text "# Symaira EraseMe scheduled inbox poll wrapper"

/-- The lines that go to the project. -/
def projectLines (projectDir : Path) : List (List Char) :=
  [text "export SYMERASEME_HEADLESS=1", commandLine (text "cd") [projectDir], []]

def wrapperLines (command : List (List Char)) (projectDir venv : Path) : List (List Char) :=
  headerLines wrapperTitle ++
    (if venv = [] then [] else [commandLine (text "source") [venv], []]) ++
    projectLines projectDir ++ [commandLine (text "exec") command]

theorem wrapper_eq (command : List (List Char)) (projectDir venv : Path) :
    wrapper command projectDir venv = unlines (wrapperLines command projectDir venv) := by
  have hheader : text "#!/usr/bin/env bash\n" ++
      text "# Symaira EraseMe scheduled task wrapper\n" ++
      text "# Generated by symeraseme generate-scheduler (Go)\n" ++
      text "set -euo pipefail\n\n" = unlines (headerLines wrapperTitle) := by decide +kernel
  have hsource : text "source " = text "source" ++ [' '] ∧ text "\n\n" = ['\n', '\n'] ∧
      text "export SYMERASEME_HEADLESS=1\n" = text "export SYMERASEME_HEADLESS=1" ++ ['\n'] ∧
      text "cd " = text "cd" ++ [' '] ∧ text "\n\nexec" = ['\n', '\n'] ++ text "exec" := by decide
  obtain ⟨hsource, hend, hexport, hcd, hexec⟩ := hsource
  rw [wrapper, hheader, hsource, hend, hexport, hcd, hexec, wrapperLines]
  split_ifs <;> simp [unlines, projectLines, commandLine]

theorem isLine_headerLines {title : List Char} (h : IsLine title) :
    ∀ l ∈ headerLines title, IsLine l := by
  have hfirst : run .start (text "#!/usr/bin/env bash") = some .comment ∧
      run .start (text "# Generated by symeraseme generate-scheduler (Go)") = some .comment ∧
      run .start (text "set -euo pipefail") = some .word := by decide
  simp only [headerLines, List.forall_mem_cons, List.not_mem_nil, false_imp_iff, implies_true,
    and_true]
  exact ⟨⟨_, hfirst.1, rfl⟩, h, ⟨_, hfirst.2.1, rfl⟩, ⟨_, hfirst.2.2, rfl⟩, ⟨.start, rfl, rfl⟩⟩

theorem isLine_projectLines (projectDir : Path) : ∀ l ∈ projectLines projectDir, IsLine l := by
  have hclosed : run .start (text "export SYMERASEME_HEADLESS=1") = some .word ∧
      run .start (text "cd") = some .word := by decide
  simp only [projectLines, List.forall_mem_cons, List.not_mem_nil, false_imp_iff, implies_true,
    and_true]
  exact ⟨⟨_, hclosed.1, rfl⟩, isLine_commandLine _ hclosed.2, ⟨.start, rfl, rfl⟩⟩

/-- The words of lines. -/
def lineWords (ls : List (List Char)) : List (Option (List (List Char))) := ls.map words

theorem scriptWords_unlines {ls : List (List Char)} (h : ∀ l ∈ ls, IsLine l) :
    scriptWords (unlines ls) = some (lineWords ls ++ [some []]) := by
  rw [scriptWords, unlines, scriptLines_flatMap h, Option.map_some, List.map_append]
  rfl

/-- The words of the lines before the paths, comments left out. -/
def headerWords : List (Option (List (List Char))) :=
  [some [], some [], some [], some [text "set", text "-euo", text "pipefail"], some []]

theorem lineWords_headerLines {title : List Char} (h : words title = some []) :
    lineWords (headerLines title) = headerWords := by
  have hclosed : words (text "#!/usr/bin/env bash") = some [] ∧
      words (text "# Generated by symeraseme generate-scheduler (Go)") = some [] ∧
      words (text "set -euo pipefail") = some [text "set", text "-euo", text "pipefail"] := by
    decide
  simp only [lineWords, headerLines, List.map_cons, List.map_nil, h, hclosed]
  rfl

theorem words_named (args : List (List Char)) :
    words (commandLine (text "source") args) = some (text "source" :: args) ∧
      words (commandLine (text "cd") args) = some (text "cd" :: args) ∧
      words (commandLine (text "exec") args) = some (text "exec" :: args) :=
  ⟨words_commandLine args (by decide) (by decide) (by decide) (by decide),
    words_commandLine args (by decide) (by decide) (by decide) (by decide),
    words_commandLine args (by decide) (by decide) (by decide) (by decide)⟩

theorem lineWords_projectLines (projectDir : Path) :
    lineWords (projectLines projectDir) =
      [some [text "export", text "SYMERASEME_HEADLESS=1"], some [text "cd", projectDir],
        some []] := by
  have hexport : words (text "export SYMERASEME_HEADLESS=1") =
      some [text "export", text "SYMERASEME_HEADLESS=1"] := by decide
  simp only [lineWords, projectLines, List.map_cons, List.map_nil, (words_named _).2.1, hexport]
  rfl

theorem scriptWords_wrapper (command : List (List Char)) (projectDir venv : Path) :
    scriptWords (wrapper command projectDir venv) = some (headerWords ++
      (if venv = [] then [] else [some [text "source", venv], some []]) ++
      [some [text "export", text "SYMERASEME_HEADLESS=1"], some [text "cd", projectDir], some [],
        some (text "exec" :: command), some []]) := by
  have hclosed : run .start wrapperTitle = some .comment ∧ words wrapperTitle = some [] ∧
      run .start (text "source") = some .word ∧ run .start (text "exec") = some .word := by decide
  obtain ⟨htitle, hwords, hsource, hexec⟩ := hclosed
  rw [wrapper_eq, scriptWords_unlines]
  · have happend : ∀ a b, lineWords (a ++ b) = lineWords a ++ lineWords b :=
      fun a b => List.map_append
    have hexecWords : lineWords [commandLine (text "exec") command] =
        [some (text "exec" :: command)] := congrArg (fun w => [w]) (words_named command).2.2
    rw [wrapperLines, happend, happend, happend, lineWords_headerLines hwords,
      lineWords_projectLines, hexecWords]
    split_ifs with hvenv
    · rw [List.append_assoc, List.append_assoc]
      rfl
    · have hsourceWords : lineWords [commandLine (text "source") [venv], []] =
          [some [text "source", venv], some []] :=
        congrArg (fun w => [w, some []]) (words_named [venv]).1
      rw [hsourceWords, List.append_assoc, List.append_assoc]
      rfl
  · intro l hl
    rw [wrapperLines, List.mem_append, List.mem_append, List.mem_append] at hl
    rcases hl with ((hl | hl) | hl) | hl
    · exact isLine_headerLines ⟨_, htitle, rfl⟩ l hl
    · split_ifs at hl
      · cases hl
      · rcases List.mem_cons.1 hl with rfl | hl
        · exact isLine_commandLine _ hsource
        · exact List.mem_singleton.1 hl ▸ ⟨.start, rfl, rfl⟩
    · exact isLine_projectLines projectDir l hl
    · exact List.mem_singleton.1 hl ▸ isLine_commandLine _ hexec

/-! ### The poll wrapper -/

/-- The patterns of the hours. -/
def hourPatterns (pollHours : List ℤ) : List Char :=
  ['|'].intercalate (pollHours.map fun hour => decimal2 hour ++ text ":00") ++ [')']

def pollLines (binaryPath projectDir venv : Path) (pollHours : List ℤ) : List (List Char) :=
  headerLines pollTitle ++
    (if venv = [] then [] else [commandLine (text "source") [venv]]) ++
    projectLines projectDir ++
    [text "CURRENT_HHMM=$(date +%H:%M)", text "case \"$CURRENT_HHMM\" in", hourPatterns pollHours,
      text "   " ++ (' ' :: (commandLine (text "exec") [binaryPath] ++
        text " poll-inbox --output json")), text "    ;;", text "esac"]

theorem pollWrapper_eq (binaryPath projectDir venv : Path) (pollHours : List ℤ) :
    pollWrapper binaryPath projectDir venv pollHours =
      unlines (pollLines binaryPath projectDir venv pollHours) := by
  have hheader : text "#!/usr/bin/env bash\n" ++
      text "# Symaira EraseMe scheduled inbox poll wrapper\n" ++
      text "# Generated by symeraseme generate-scheduler (Go)\n" ++
      text "set -euo pipefail\n\n" = unlines (headerLines pollTitle) := by decide +kernel
  have hclosed : text "source " = text "source" ++ [' '] ∧
      text "export SYMERASEME_HEADLESS=1\n" = text "export SYMERASEME_HEADLESS=1" ++ ['\n'] ∧
      text "cd " = text "cd" ++ [' '] ∧ text "\n\n" = ['\n', '\n'] ∧
      text "CURRENT_HHMM=$(date +%H:%M)\n" = text "CURRENT_HHMM=$(date +%H:%M)" ++ ['\n'] ∧
      text "case \"$CURRENT_HHMM\" in\n" = text "case \"$CURRENT_HHMM\" in" ++ ['\n'] ∧
      text ")\n    exec " = [')', '\n'] ++ text "   " ++ (' ' :: (text "exec" ++ [' '])) ∧
      text " poll-inbox --output json\n    ;;\nesac\n" =
        text " poll-inbox --output json" ++ ['\n'] ++ text "    ;;" ++ ['\n'] ++ text "esac" ++
          ['\n'] := by
    decide +kernel
  obtain ⟨hsource, hexport, hcd, hend, hcurrent, hcase, hexec, hpoll⟩ := hclosed
  rw [pollWrapper, hheader, hsource, hexport, hcd, hend, hcurrent, hcase, hexec, hpoll, pollLines]
  split_ifs <;> simp [unlines, projectLines, commandLine, hourPatterns]

/-- A character that the line of the patterns may have. -/
def IsPatternChar (c : Char) : Prop := c.isDigit = true ∨ c ∈ ['-', ':', '|', ')']

theorem isPatternChar_decimal (n : ℤ) : ∀ c ∈ decimal n, IsPatternChar c := by
  have hdigits : ∀ c ∈ Nat.toDigits 10 n.natAbs, IsPatternChar c :=
    fun c hc => Or.inl (Nat.isDigit_of_mem_toDigits (by decide) (by decide) hc)
  rw [decimal]
  split_ifs
  · rw [List.forall_mem_cons]
    exact ⟨Or.inr (by decide), hdigits⟩
  · exact hdigits

theorem isPatternChar_decimal2 (n : ℤ) : ∀ c ∈ decimal2 n, IsPatternChar c := by
  rw [decimal2]
  split_ifs
  · rw [List.forall_mem_cons]
    exact ⟨Or.inl rfl, isPatternChar_decimal n⟩
  · exact isPatternChar_decimal n

theorem isPatternChar_intercalate {ls : List (List Char)}
    (h : ∀ l ∈ ls, ∀ c ∈ l, IsPatternChar c) : ∀ c ∈ ['|'].intercalate ls, IsPatternChar c := by
  induction ls with
  | nil => simp [List.intercalate]
  | cons l ls ih =>
    rw [List.forall_mem_cons] at h
    cases ls with
    | nil => simpa [List.intercalate] using h.1
    | cons l' ls =>
      have hcons : ['|'].intercalate (l :: l' :: ls) = l ++ '|' :: ['|'].intercalate (l' :: ls) := by
        simp [List.intercalate]
      rw [hcons, List.forall_mem_append, List.forall_mem_cons]
      exact ⟨h.1, Or.inr (by decide), ih h.2⟩

/-- The patterns are made of digits and signs. -/
theorem isPatternChar_hourPatterns (pollHours : List ℤ) :
    ∀ c ∈ hourPatterns pollHours, IsPatternChar c := by
  rw [hourPatterns, List.forall_mem_append, List.forall_mem_singleton]
  refine ⟨isPatternChar_intercalate fun l hl => ?_, Or.inr (by decide)⟩
  obtain ⟨hour, -, rfl⟩ := List.mem_map.1 hl
  have hzero : ∀ c ∈ text ":00", c.isDigit = true ∨ c ∈ ['-', ':', '|', ')'] := by decide
  rw [List.forall_mem_append]
  exact ⟨isPatternChar_decimal2 hour, hzero⟩

theorem not_mem_of_isPatternChar {c : Char} (h : IsPatternChar c) :
    c ∉ ['\'', '"', '\\', '#', '\n'] := by
  intro hmem
  have hquotes : ∀ d ∈ ['\'', '"', '\\', '#', '\n'],
      d.isDigit = false ∧ d ∉ ['-', ':', '|', ')'] := by decide
  rcases h with h | h
  · rw [(hquotes c hmem).1] at h
    cases h
  · exact (hquotes c hmem).2 h

theorem words_hourPatterns (pollHours : List ℤ) : words (hourPatterns pollHours) = none := by
  refine words_operator (c := ')') (by decide) (by simp [hourPatterns]) fun d hd hmem => ?_
  refine not_mem_of_isPatternChar (isPatternChar_hourPatterns pollHours d hd) ?_
  exact List.mem_of_mem_take (i := 4) hmem

/-- The line that runs the poll. -/
theorem words_pollLine (binaryPath : Path) :
    words (text "   " ++ (' ' :: (commandLine (text "exec") [binaryPath] ++
      text " poll-inbox --output json"))) =
      some [text "exec", binaryPath, text "poll-inbox", text "--output", text "json"] := by
  have hclosed : text "   " = [' ', ' ', ' '] ∧
      text " poll-inbox --output json" = ' ' :: text "poll-inbox --output json" ∧
      wordsAfter .start none (text "poll-inbox --output json") =
        some [text "poll-inbox", text "--output", text "json"] := by decide
  obtain ⟨hblanks, htail, hrest⟩ := hclosed
  have hexec : wordsAfter .start none (text "exec" ++ ' ' :: (shellQuote binaryPath ++
      text " poll-inbox --output json")) =
        some [text "exec", binaryPath, text "poll-inbox", text "--output", text "json"] := by
    rw [wordsAfter_word (by decide) (by decide) (by decide) (by decide), wordsAfter_blank,
      wordsAfter_shellQuote, htail, wordsAfter_blank, hrest]
    rfl
  rw [hblanks, words_eq]
  simp only [List.cons_append, List.nil_append, wordsAfter_blanks]
  rw [← hexec, commandLine, List.flatMap_singleton, List.append_assoc, List.cons_append]

theorem isLine_pollLine (binaryPath : Path) :
    IsLine (text "   " ++ (' ' :: (commandLine (text "exec") [binaryPath] ++
      text " poll-inbox --output json"))) := by
  have hclosed : text "   " = [' ', ' ', ' '] ∧ run .start (text "exec") = some .word ∧
      run .word (text " poll-inbox --output json") = some .word := by decide
  obtain ⟨hblanks, hexec, htail⟩ := hclosed
  refine ⟨.word, ?_, rfl⟩
  rw [hblanks]
  change run .start (commandLine (text "exec") [binaryPath] ++ text " poll-inbox --output json") = _
  rw [commandLine, List.append_assoc, run_append, hexec, List.flatMap_singleton, List.cons_append]
  change run .start _ = _
  rw [run_shellQuote rfl, htail]

theorem scriptWords_pollWrapper (binaryPath projectDir venv : Path) (pollHours : List ℤ) :
    scriptWords (pollWrapper binaryPath projectDir venv pollHours) = some (headerWords ++
      (if venv = [] then [] else [some [text "source", venv]]) ++
      [some [text "export", text "SYMERASEME_HEADLESS=1"], some [text "cd", projectDir], some [],
        none, none, none,
        some [text "exec", binaryPath, text "poll-inbox", text "--output", text "json"], none,
        some [text "esac"], some []]) := by
  have hclosed : run .start pollTitle = some .comment ∧ words pollTitle = some [] ∧
      run .start (text "source") = some .word := by decide
  obtain ⟨htitle, htitleWords, hsource⟩ := hclosed
  have hlines : run .start (text "CURRENT_HHMM=$(date +%H:%M)") = some .start ∧
      run .start (text "case \"$CURRENT_HHMM\" in") = some .word ∧
      run .start (text "    ;;") = some .start ∧ run .start (text "esac") = some .word := by decide
  have hwords : words (text "CURRENT_HHMM=$(date +%H:%M)") = none ∧
      words (text "case \"$CURRENT_HHMM\" in") = none ∧ words (text "    ;;") = none ∧
      words (text "esac") = some [text "esac"] := by decide
  rw [pollWrapper_eq, scriptWords_unlines]
  · have happend : ∀ a b, lineWords (a ++ b) = lineWords a ++ lineWords b :=
      fun a b => List.map_append
    have htail : lineWords [text "CURRENT_HHMM=$(date +%H:%M)", text "case \"$CURRENT_HHMM\" in",
        hourPatterns pollHours, text "   " ++ (' ' :: (commandLine (text "exec") [binaryPath] ++
          text " poll-inbox --output json")), text "    ;;", text "esac"] =
        [none, none, none, some [text "exec", binaryPath, text "poll-inbox", text "--output",
          text "json"], none, some [text "esac"]] := by
      simp only [lineWords, List.map_cons, List.map_nil, hwords, words_hourPatterns, words_pollLine]
    rw [pollLines, happend, happend, happend, lineWords_headerLines htitleWords,
      lineWords_projectLines, htail]
    split_ifs with hvenv
    · rw [List.append_assoc, List.append_assoc]
      rfl
    · have hsourceWords : lineWords [commandLine (text "source") [venv]] =
          [some [text "source", venv]] := congrArg (fun w => [w]) (words_named [venv]).1
      rw [hsourceWords, List.append_assoc, List.append_assoc]
      rfl
  · intro l hl
    rw [pollLines, List.mem_append, List.mem_append, List.mem_append] at hl
    rcases hl with ((hl | hl) | hl) | hl
    · exact isLine_headerLines ⟨_, htitle, rfl⟩ l hl
    · split_ifs at hl
      · cases hl
      · exact List.mem_singleton.1 hl ▸ isLine_commandLine _ hsource
    · exact isLine_projectLines projectDir l hl
    · simp only [List.mem_cons, List.not_mem_nil, or_false] at hl
      rcases hl with rfl | rfl | rfl | rfl | rfl | rfl
      · exact ⟨_, hlines.1, rfl⟩
      · exact ⟨_, hlines.2.1, rfl⟩
      · exact isLine_of_plain fun c hc =>
          not_mem_of_isPatternChar (isPatternChar_hourPatterns pollHours c hc)
      · exact isLine_pollLine binaryPath
      · exact ⟨_, hlines.2.2.1, rfl⟩
      · exact ⟨_, hlines.2.2.2, rfl⟩

/-- Every configured string is one word of the line it is in, and the lines have no other words than
those of the program. -/
theorem scriptWords_wrappers (command : List (List Char)) (binaryPath projectDir venv : Path)
    (pollHours : List ℤ) :
    scriptWords (wrapper command projectDir venv) = some (headerWords ++
      (if venv = [] then [] else [some [text "source", venv], some []]) ++
      [some [text "export", text "SYMERASEME_HEADLESS=1"], some [text "cd", projectDir], some [],
        some (text "exec" :: command), some []]) ∧
    scriptWords (pollWrapper binaryPath projectDir venv pollHours) = some (headerWords ++
      (if venv = [] then [] else [some [text "source", venv]]) ++
      [some [text "export", text "SYMERASEME_HEADLESS=1"], some [text "cd", projectDir], some [],
        none, none, none,
        some [text "exec", binaryPath, text "poll-inbox", text "--output", text "json"], none,
        some [text "esac"], some []]) :=
  ⟨scriptWords_wrapper command projectDir venv,
    scriptWords_pollWrapper binaryPath projectDir venv pollHours⟩

end EraseMe.Scheduler
