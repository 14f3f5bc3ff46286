import EraseMe.Library.CommandLine
import EraseMe.Library.Paths

/-!
# Commands of crontabs

An entry is a line with five fields and a command; the command ends at the first percent sign that
no backslash precedes, and the shell cuts it into words.
-/

namespace CommandLine

open Scan

namespace Crontab

/-- A blank or a tab. -/
def isBlank (c : Char) : Bool := c = ' ' ∨ c = '\t'

/-- What follows the first `n` fields. -/
def dropFields : ℕ → List Char → Option (List Char)
  | 0, s => if s = [] then none else some s
  | n + 1, s =>
      let rest := s.dropWhile fun c => !isBlank c
      if rest = [] then none else dropFields n (rest.dropWhile isBlank)

/-- The command of an entry: what follows the five fields of its time. -/
def entry (line : List Char) : Option (List Char) :=
  let s := line.dropWhile isBlank
  if s.head? = some '#' then none else dropFields 5 s

/-- The part of a command before the first percent sign that no backslash precedes. -/
def percentRule (_ : Unit) (c : Char) (s : List Char) : Rule Unit Char :=
  if c = '%' then .put [] s.length ()
  else if c = '\\' ∧ s.head? = some '%' then .put ['%'] 1 ()
  else .copy ()

/-- The words the shell makes of a command. -/
def command (s : List Char) : Option (List (List Char)) := do
  let line ← (charScanner percentRule).scan 0 () s
  Shell.words line

/-- The commands of a table, each as far as it can be read. -/
def commands (table : List Char) : List (Option (List (List Char))) :=
  ((Text.splitOn '\n' table).filterMap entry).map command

theorem percent_shortensStrictly : (charScanner percentRule).ShortensStrictly := by
  intro q c s out skip next h
  change percentRule q c s = _ at h
  unfold percentRule at h
  split_ifs at h
  · cases h
    exact Nat.zero_le _
  · cases h
    exact le_rfl

/-- A command comes back as it is exactly when neither cron nor the shell reads it otherwise. -/
theorem command_eq_iff (s : List Char) :
    command ('/' :: s) = some ['/' :: s] ↔ Shell.Literal s ∧ '%' ∉ s := by
  have hid : ∀ s : List Char, s.map (charScanner percentRule).lift = s := List.map_id
  have hplain : (charScanner percentRule).Plain () ('/' :: s) ↔
      ∀ u c v, s = u ++ c :: v → percentRule () c v = .copy () := by
    have happend := plain_append_iff (S := charScanner percentRule) charScanner_stable (s := s)
      (t := []) rfl
    rw [plain_cons_iff charScanner_stable, ← List.append_nil s, happend]
    simp only [List.append_nil]
    exact and_iff_right rfl
  constructor
  · intro h
    rw [command, Option.bind_eq_bind, Option.bind_eq_some_iff] at h
    obtain ⟨line, hscan, hwords⟩ := h
    have hle := total_scan_le percent_shortensStrictly.shortens hscan
    rw [total_charScanner] at hle
    have hge : ('/' :: s).length ≤ line.length := by
      obtain ⟨out, hout, hw⟩ := Option.map_eq_some_iff.1 hwords
      have hlen := length_flatten_wordsFrom none out
      rw [hw] at hlen
      have htotal := total_scan_le Shell.shortensStrictly.shortens hout
      simp only [Scanner.total, Shell.scanner] at htotal
      simp only [List.flatten_cons, List.flatten_nil, List.append_nil, Option.getD_none,
        List.length_nil, Nat.zero_add] at hlen
      omega
    have hcopy := plain_of_total_eq percent_shortensStrictly hscan
      (by rw [total_charScanner]; omega)
    have hsame := scan_of_plain hcopy
    rw [hid, hscan, Option.some.injEq] at hsame
    subst hsame
    refine ⟨(Shell.words_eq_iff s).1 hwords, fun hmem => ?_⟩
    obtain ⟨u, v, huv⟩ := List.append_of_mem hmem
    cases hplain.1 hcopy u '%' v huv
  · rintro ⟨hliteral, hpercent⟩
    have hcopy : (charScanner percentRule).Plain () ('/' :: s) := by
      refine hplain.2 ?_
      rintro u c v rfl
      have hc : c ≠ '%' := by
        rintro rfl
        simp at hpercent
      have hback : c ≠ '\\' := by
        rintro rfl
        exact hliteral.1 '\\' (by simp) (by decide)
      simp [percentRule, hc, hback]
    have hsame := scan_of_plain hcopy
    rw [hid] at hsame
    rw [command, hsame, Option.bind_eq_bind, Option.bind_some, Shell.words_eq_iff]
    exact hliteral

/-- No line break comes out of a line without one. -/
theorem newline_not_mem_command {line : List Char} (h : '\n' ∉ line) {ws : List (List Char)}
    (hws : command line = some ws) : ∀ w ∈ ws, '\n' ∉ w := by
  rw [command, Option.bind_eq_bind, Option.bind_eq_some_iff] at hws
  obtain ⟨s, hscan, hws⟩ := hws
  have hput : ∀ q d s out skip next, (∀ a ∈ d :: s, a ≠ '\n') →
      (charScanner percentRule).rule q d s = .put out skip next → ∀ b ∈ out, b ≠ '\n' := by
    intro q d s out skip next _ hrule
    change percentRule q d s = _ at hrule
    unfold percentRule at hrule
    split_ifs at hrule <;> (cases hrule; simp)
  have hmem := mem_scan (A := (· ≠ '\n')) (B := (· ≠ '\n')) (fun _ hd => hd) hput hscan
    (fun a ha heq => h (heq ▸ ha))
  exact Shell.not_mem_words (fun hs => hmem _ hs rfl) hws

theorem dropFields_suffix {n : ℕ} {s r : List Char} (h : dropFields n s = some r) : r <:+ s := by
  induction n generalizing s with
  | zero =>
    simp only [dropFields] at h
    split_ifs at h
    cases h
    exact List.suffix_rfl
  | succ n ih =>
    simp only [dropFields] at h
    split_ifs at h
    exact (ih h).trans ((List.dropWhile_suffix _).trans (List.dropWhile_suffix _))

theorem entry_suffix {line r : List Char} (h : entry line = some r) : r <:+ line := by
  simp only [entry] at h
  split_ifs at h
  exact (dropFields_suffix h).trans (List.dropWhile_suffix _)

/-- No command of a table has a line break in a word. -/
theorem newline_not_mem_commands {table : List Char} {ws : List (List Char)}
    (h : some ws ∈ commands table) : ∀ w ∈ ws, '\n' ∉ w := by
  simp only [commands, List.mem_map, List.mem_filterMap] at h
  obtain ⟨cmd, ⟨line, hline, hentry⟩, hcommand⟩ := h
  refine newline_not_mem_command (fun hmem => ?_) hcommand
  exact Paths.not_mem_splitOn '\n' table line hline ((entry_suffix hentry).mem hmem)

theorem commands_append (a b : List Char) :
    commands (a ++ '\n' :: b) = commands a ++ commands b := by
  simp [commands, Paths.splitOn_append_sep]

/-- A comment has no command. -/
theorem commands_comment {s : List Char} (h : '\n' ∉ s) : commands ('#' :: s) = [] := by
  have hline : '\n' ∉ '#' :: s := by simpa using h
  rw [commands, Paths.splitOn_of_not_mem hline]
  rfl

/-- A line that is an entry has one command. -/
theorem commands_of_entry {line s : List Char} (hline : '\n' ∉ line)
    (hentry : entry line = some s) : commands line = [command s] := by
  rw [commands, Paths.splitOn_of_not_mem hline]
  simp [hentry]

/-- The command of a line with fields before it. -/
theorem dropFields_foldr {fields : List (List Char)} {s : List Char}
    (hfields : ∀ f ∈ fields, f ≠ [] ∧ ∀ c ∈ f, isBlank c = false) (hs : s ≠ [])
    (hhead : ∀ c ∈ s.head?, isBlank c = false) :
    dropFields fields.length (fields.foldr (fun f r => f ++ ' ' :: r) s) = some s ∧
      ∀ c ∈ (fields.foldr (fun f r => f ++ ' ' :: r) s).head?, isBlank c = false := by
  induction fields with
  | nil => simpa [dropFields, hs] using hhead
  | cons f fields ih =>
    obtain ⟨hdrop, hrest⟩ := ih fun g hg => hfields g (List.mem_cons_of_mem _ hg)
    obtain ⟨hne, hblank⟩ := hfields f List.mem_cons_self
    set r := fields.foldr (fun f r => f ++ ' ' :: r) s with hr
    have hfield : (f ++ ' ' :: r).dropWhile (fun c => !isBlank c) = ' ' :: r := by
      rw [List.dropWhile_append_of_pos (by simpa using hblank)]
      rfl
    have hskip : (' ' :: r).dropWhile isBlank = r := by
      rw [List.dropWhile_cons_of_pos rfl]
      cases hcases : r with
      | nil => rfl
      | cons c r' =>
        rw [hcases] at hrest
        rw [List.dropWhile_cons_of_neg (by simpa using hrest c rfl)]
    constructor
    · simp only [List.foldr_cons, List.length_cons, dropFields, ← hr, hfield, hskip]
      simpa using hdrop
    · cases f with
      | nil => exact absurd rfl hne
      | cons c f =>
        intro d hd
        cases hd
        exact hblank c List.mem_cons_self

/-- The command of an entry. -/
theorem entry_foldr {f : List Char} {fields : List (List Char)} {s : List Char}
    (hlen : fields.length = 4)
    (hfields : ∀ g ∈ f :: fields, g ≠ [] ∧ ∀ c ∈ g, isBlank c = false)
    (hcomment : f.head? ≠ some '#') (hs : s ≠ []) (hhead : ∀ c ∈ s.head?, isBlank c = false) :
    entry ((f :: fields).foldr (fun f r => f ++ ' ' :: r) s) = some s := by
  obtain ⟨hdrop, hblank⟩ := dropFields_foldr hfields hs hhead
  rw [List.length_cons, hlen] at hdrop
  obtain ⟨hne, -⟩ := hfields f List.mem_cons_self
  cases f with
  | nil => exact absurd rfl hne
  | cons c f =>
    simp only [List.foldr_cons, List.cons_append] at hdrop hblank ⊢
    have hskip : ∀ r, (c :: r).dropWhile isBlank = c :: r := fun r =>
      List.dropWhile_cons_of_neg (by simpa using hblank c rfl)
    simp only [entry, hskip, hdrop]
    rw [if_neg (by simpa using hcomment)]

end Crontab

end CommandLine
