import EraseMe.Library.Scan

/-!
# Words of a command line

How a POSIX shell cuts a line into words.  The output of the scanner has a symbol for a character
of a word, one where a quotation starts, and one where a word ends.

`Shell.words` fails where the shell would start an expansion, an operator or a pattern: the words
are then not a matter of the text alone.
-/

namespace CommandLine

open Scan

/-- What a scanner of a command line puts out. -/
inductive Sym
  | char (c : Char)
  | mark
  | brk
  deriving DecidableEq

/-- How much of a word it is. -/
def Sym.weight : Sym → ℕ
  | .char _ => 1
  | .mark | .brk => 0

theorem Sym.weight_char (c : Char) : Sym.weight (.char c) = 1 := rfl

/-- Where in a line a scanner is. -/
inductive Mode
  | start
  | word
  | single
  | double
  deriving DecidableEq

/-- The words, after the part of a word that was read before. -/
def wordsFrom : Option (List Char) → List Sym → List (List Char)
  | none, [] => []
  | some w, [] => [w]
  | none, .brk :: s => wordsFrom none s
  | some w, .brk :: s => w :: wordsFrom none s
  | w, .mark :: s => wordsFrom (some (w.getD [])) s
  | w, .char c :: s => wordsFrom (some (w.getD [] ++ [c])) s

@[simp] theorem wordsFrom_nil (w : Option (List Char)) : wordsFrom w [] = w.toList := by
  cases w <;> rfl

@[simp] theorem wordsFrom_brk (w : Option (List Char)) (s : List Sym) :
    wordsFrom w (.brk :: s) = w.toList ++ wordsFrom none s := by
  cases w <;> rfl

@[simp] theorem wordsFrom_mark (w : Option (List Char)) (s : List Sym) :
    wordsFrom w (.mark :: s) = wordsFrom (some (w.getD [])) s := by
  cases w <;> rfl

@[simp] theorem wordsFrom_char (w : Option (List Char)) (c : Char) (s : List Sym) :
    wordsFrom w (.char c :: s) = wordsFrom (some (w.getD [] ++ [c])) s := by
  cases w <;> rfl

theorem wordsFrom_chars (w s : List Char) :
    wordsFrom (some w) (s.map Sym.char) = [w ++ s] := by
  induction s generalizing w with
  | nil => simp
  | cons c s ih => simp [ih]

theorem wordsFrom_chars_brk (w s : List Char) (out : List Sym) :
    wordsFrom (some w) (s.map Sym.char ++ .brk :: out) = (w ++ s) :: wordsFrom none out := by
  induction s generalizing w with
  | nil => simp
  | cons c s ih => simp [ih]

/-- No character gets lost between the symbols and the words. -/
theorem length_flatten_wordsFrom (w : Option (List Char)) (s : List Sym) :
    (wordsFrom w s).flatten.length = (w.getD []).length + (s.map Sym.weight).sum := by
  induction s generalizing w with
  | nil => cases w <;> simp
  | cons x s ih =>
    cases x with
    | char c =>
      simp only [wordsFrom_char, ih, Option.getD_some, List.length_append, List.length_singleton,
        List.map_cons, List.sum_cons, Sym.weight]
      omega
    | mark => simp [ih, Sym.weight]
    | brk => cases w <;> simp [ih, Sym.weight]

/-- A character of a word was a character before, or stands in the symbols. -/
theorem not_mem_wordsFrom {c : Char} {w : Option (List Char)} {s : List Sym}
    (hw : c ∉ w.getD []) (hs : Sym.char c ∉ s) : ∀ v ∈ wordsFrom w s, c ∉ v := by
  induction s generalizing w with
  | nil =>
    cases w with
    | none => simp
    | some w => simpa using hw
  | cons x s ih =>
    rw [List.mem_cons, not_or] at hs
    cases x with
    | char d =>
      have hd : c ≠ d := fun h => hs.1 (by rw [h])
      rw [wordsFrom_char]
      exact ih (by simpa [hd] using hw) hs.2
    | mark =>
      rw [wordsFrom_mark]
      exact ih (by simpa using hw) hs.2
    | brk =>
      cases w with
      | none => exact ih (by simp) hs.2
      | some w =>
        simp only [wordsFrom_brk, Option.toList_some, List.singleton_append, List.mem_cons,
          forall_eq_or_imp]
        exact ⟨hw, ih (by simp) hs.2⟩

/-! ### Passes over characters -/

/-- A scanner that copies. -/
def charScanner (rule : Unit → Char → List Char → Rule Unit Char) : Scanner Unit Char Char where
  rule := rule
  accept _ := true
  lift := id
  weight _ := 1
  weight_lift _ := rfl

section CharScanner

variable {rule : Unit → Char → List Char → Rule Unit Char}

theorem charScanner_stable (c : Char) (s : List Char) (next : Unit)
    (_ : (charScanner rule).rule () c s = .copy next) : next = () := rfl

theorem total_charScanner (s : List Char) : (charScanner rule).total s = s.length := by
  have := total_map_lift (S := charScanner rule) s
  rwa [show (charScanner rule).lift = id from rfl, List.map_id] at this

end CharScanner

/-! ### The shell -/

namespace Shell

/-- Characters that end a word, quote, start an operator or make a pattern. -/
def special : List Char :=
  [' ', '\t', '\n', '\'', '"', '\\', '`', '|', '&', ';', '<', '>', '(', ')', '*', '?', '[']

/-- A dollar sign before this starts an expansion. -/
def expands : List Char → Bool
  | [] => false
  | c :: _ => c.isAlphanum || c ∈ ['_', '@', '*', '#', '?', '-', '$', '!', '(', '{', '\'']

/-- Within double quotes. -/
def doubleRule (c : Char) (s : List Char) : Rule Mode Sym :=
  if c = '"' then .put [] 0 .word
  else if c = '\\' then
    match s with
    | [] => .refuse
    | d :: _ => if d ∈ ['$', '`', '"', '\\'] then .put [.char d] 1 .double else .copy .double
  else if c = '`' ∨ (c = '$' ∧ expands s) then .refuse
  else .copy .double

/-- Outside of quotations; `brk` is what a blank puts out. -/
def plainRule (atStart : Bool) (c : Char) (s : List Char) : Rule Mode Sym :=
  if c = ' ' ∨ c = '\t' then .put (if atStart then [] else [.brk]) 0 .start
  else if c = '\'' then .put [.mark] 0 .single
  else if c = '"' then .put [.mark] 0 .double
  else if c = '\\' then
    match s with
    | [] => .refuse
    | d :: _ => .put [.char d] 1 .word
  else if c ∈ special ∨ (c = '$' ∧ expands s) then .refuse
  else if atStart ∧ c = '#' then .put [] s.length .start
  else if atStart ∧ c = '~' then .refuse
  else .copy .word

/-- The rule of each mode. -/
def rule : Mode → Char → List Char → Rule Mode Sym
  | .start, c, s => plainRule true c s
  | .word, c, s => plainRule false c s
  | .single, c, _ => if c = '\'' then .put [] 0 .word else .copy .single
  | .double, c, s => doubleRule c s

/-- The scanner of the shell. -/
def scanner : Scanner Mode Char Sym where
  rule := rule
  accept q := q = .start ∨ q = .word
  lift := .char
  weight := Sym.weight
  weight_lift := Sym.weight_char

/-- The words of a simple command. -/
def words (line : List Char) : Option (List (List Char)) :=
  (scanner.scan 0 .start line).map (wordsFrom none)

/-- A text without a meaning of its own for the shell. -/
def Literal (s : List Char) : Prop :=
  (∀ c ∈ s, c ∉ special) ∧ ∀ u v, s = u ++ '$' :: v → expands v = false

theorem plainRule_word_eq_copy {c : Char} {s : List Char} {next : Mode} :
    plainRule false c s = .copy next ↔
      c ∉ special ∧ (c = '$' → expands s = false) ∧ next = .word := by
  by_cases hc : c ∈ special
  · refine iff_of_false (fun h => ?_) (fun h => h.1 hc)
    unfold plainRule at h
    split_ifs at h
    all_goals first | cases h | (split at h <;> cases h)
    simp_all
  · have hne := hc
    simp only [special, List.mem_cons, List.not_mem_nil, or_false, not_or] at hne
    simp only [plainRule, hne, hc, false_or, or_self, if_false, not_false_eq_true, true_and,
      Bool.false_eq_true, false_and]
    by_cases hexp : c = '$' ∧ expands s = true
    · simp [hexp]
    · rw [if_neg hexp, Rule.copy.injEq, eq_comm, iff_and_self]
      intro _ hd
      simpa [hd] using hexp

theorem shortensStrictly : scanner.ShortensStrictly := by
  intro q c s out skip next h
  change rule q c s = .put out skip next at h
  have hplain : ∀ b, plainRule b c s = .put out skip next → scanner.total out ≤ skip := by
    intro b hb
    unfold plainRule at hb
    split_ifs at hb
    all_goals first
      | (cases hb; simp [scanner, Scanner.total, Sym.weight])
      | (split at hb <;> cases hb; simp [scanner, Scanner.total, Sym.weight])
  cases q with
  | start => exact hplain true h
  | word => exact hplain false h
  | single =>
    simp only [rule] at h
    split_ifs at h
    cases h
    exact Nat.zero_le _
  | double =>
    simp only [rule, doubleRule] at h
    split_ifs at h
    · cases h
      exact Nat.zero_le _
    · split at h
      · cases h
      · split_ifs at h
        cases h
        simp [scanner, Scanner.total, Sym.weight]

/-- The words are made of characters of the line. -/
theorem not_mem_words {c : Char} {line : List Char} (hc : c ∉ line) {ws : List (List Char)}
    (h : words line = some ws) : ∀ w ∈ ws, c ∉ w := by
  obtain ⟨out, hscan, rfl⟩ := Option.map_eq_some_iff.1 h
  have hput : ∀ q d s out skip next, (∀ a ∈ d :: s, a ≠ c) →
      scanner.rule q d s = .put out skip next → ∀ b ∈ out, b ≠ Sym.char c := by
    intro q d s out skip next hall hrule
    have hplain : ∀ b, plainRule b d s = .put out skip next → ∀ b ∈ out, b ≠ Sym.char c := by
      intro b hb
      unfold plainRule at hb
      split_ifs at hb
      all_goals first
        | (cases hb; simp)
        | (split at hb <;> cases hb; simpa using fun h => hall _ (by simp) h)
    cases q with
    | start => exact hplain true hrule
    | word => exact hplain false hrule
    | single =>
      change (if d = '\'' then _ else _) = _ at hrule
      split_ifs at hrule
      cases hrule
      simp
    | double =>
      change doubleRule d s = _ at hrule
      unfold doubleRule at hrule
      split_ifs at hrule
      · cases hrule
        simp
      · split at hrule
        · cases hrule
        · split_ifs at hrule
          cases hrule
          simpa using fun h => hall _ (by simp) h
  have hmem := mem_scan (A := (· ≠ c)) (B := (· ≠ Sym.char c))
    (fun d hd h => hd (Sym.char.inj h)) hput hscan (fun a ha h => hc (h ▸ ha))
  exact not_mem_wordsFrom (by simp) fun h => hmem _ h rfl

theorem rule_word_stable (c : Char) (s : List Char) (next : Mode)
    (h : scanner.rule .word c s = .copy next) : next = .word :=
  (plainRule_word_eq_copy.1 h).2.2

theorem plain_word_iff (s : List Char) : scanner.Plain .word s ↔ Literal s := by
  have happend := plain_append_iff rule_word_stable (S := scanner) (s := s) (t := [])
    (by simp [Scanner.Plain, scanner])
  rw [List.append_nil] at happend
  rw [happend]
  simp only [List.append_nil]
  constructor
  · intro h
    refine ⟨fun c hc => ?_, fun u v huv => ?_⟩
    · obtain ⟨u, v, huv⟩ := List.append_of_mem hc
      exact (plainRule_word_eq_copy.1 (h u c v huv)).1
    · exact ((plainRule_word_eq_copy (c := '$') (s := v)).1 (h u '$' v huv)).2.1 rfl
  · rintro ⟨hspecial, hdollar⟩ u c v rfl
    refine plainRule_word_eq_copy.2 ⟨hspecial c (by simp), fun hc => ?_, rfl⟩
    subst hc
    exact hdollar u v rfl

/-- A path without a meaning of its own for the shell is one word of the command, and no other
path comes back from the shell as it is. -/
theorem words_eq_iff (s : List Char) : words ('/' :: s) = some [('/' :: s)] ↔ Literal s := by
  rw [← plain_word_iff, words, Option.map_eq_some_iff]
  have hslash : ∀ s, scanner.rule .start '/' s = .copy .word := fun _ => rfl
  constructor
  · rintro ⟨out, hscan, hwords⟩
    have hlen := length_flatten_wordsFrom none out
    rw [hwords] at hlen
    have htotal : scanner.total out = ('/' :: s).length := by
      simpa [Scanner.total, scanner] using hlen.symm
    obtain ⟨next, hrule, hplain⟩ := plain_of_total_eq shortensStrictly hscan htotal
    rw [hslash] at hrule
    cases hrule
    exact hplain
  · intro h
    refine ⟨_, scan_of_plain ⟨.word, hslash s, h⟩, ?_⟩
    simp only [List.map_cons, scanner, wordsFrom_char, Option.getD_none, List.nil_append]
    rw [wordsFrom_chars]
    rfl

/-- Text that continues a literal text does not change it. -/
theorem literal_append_iff {s t : List Char} (ht : Literal t) (hhead : expands t = false) :
    Literal (s ++ t) ↔ Literal s := by
  constructor
  · rintro ⟨hspecial, hdollar⟩
    refine ⟨fun c hc => hspecial c (List.mem_append_left _ hc), fun u v huv => ?_⟩
    have := hdollar u (v ++ t) (by rw [huv, List.append_assoc, List.cons_append])
    cases v with
    | nil => rfl
    | cons c v => exact this
  · rintro ⟨hspecial, hdollar⟩
    refine ⟨fun c hc => ?_, fun u v huv => ?_⟩
    · rcases List.mem_append.1 hc with hc | hc
      · exact hspecial c hc
      · exact ht.1 c hc
    · rcases List.append_eq_append_iff.1 huv with ⟨w, rfl, hw⟩ | ⟨w, hw, hv⟩
      · exact ht.2 w v hw
      · cases w with
        | nil =>
          rw [List.nil_append] at hv
          exact ht.2 [] v hv.symm
        | cons c w =>
          cases hv
          cases w with
          | nil => exact hhead
          | cons d w => exact hdollar u (d :: w) hw

end Shell

end CommandLine
