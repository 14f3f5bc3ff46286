import EraseMe.Library.CommandLine
import EraseMe.Library.Replace

/-!
# Lines of a shell script

A line of a script ends at a line break outside of quotations, so that it may have line breaks in
quoted words.  `Script.lines` cuts a script into its lines, and `Script.words` has the words of each
line, `none` for one with an operator or an expansion.  Here-documents are not described.

A quotation of a text between single quotes, with every single quote of it replaced by `'\''`, is
one word with that text (`wordsAfter_quoted`), and no line ends in it (`run_quoted`).
-/

namespace CommandLine

open Scan

namespace Shell

/-! ### Words from left to right -/

/-- The words of the rest of a line, after the part of a word that was read before. -/
def wordsAfter (mode : Mode) (w : Option (List Char)) (s : List Char) :
    Option (List (List Char)) :=
  (scanner.scan 0 mode s).map (wordsFrom w)

theorem words_eq (line : List Char) : words line = wordsAfter .start none line := rfl

@[simp] theorem wordsAfter_start_nil : wordsAfter .start none [] = some [] := rfl

@[simp] theorem wordsAfter_word_nil (w : List Char) : wordsAfter .word (some w) [] = some [w] := rfl

/-- Characters that stand for themselves in a word. -/
def isPlain (c : Char) : Bool := c ∉ special ∧ c ≠ '$'

section

variable {c : Char} {w s : List Char}

theorem wordsAfter_copy {mode next : Mode} {w : Option (List Char)}
    (h : rule mode c s = .copy next) :
    wordsAfter mode w (c :: s) = wordsAfter next (some (w.getD [] ++ [c])) s := by
  rw [wordsAfter, scan_copy (S := scanner) h, Option.map_map]
  cases w <;> rfl

theorem wordsAfter_put {mode : Mode} {w : Option (List Char)} (out : List Sym) (next : Mode)
    (h : rule mode c s = .put out 0 next) :
    wordsAfter mode w (c :: s) = (scanner.scan 0 next s).map fun rest => wordsFrom w (out ++ rest) := by
  rw [wordsAfter, scan_put (S := scanner) h, Option.map_map]
  rfl

theorem plainRule_of_isPlain (hc : isPlain c = true) (s : List Char) :
    plainRule false c s = .copy .word := by
  simp only [isPlain, decide_eq_true_eq] at hc
  exact plainRule_word_eq_copy.2 ⟨hc.1, fun h => absurd h hc.2, rfl⟩

theorem wordsAfter_plain (hc : isPlain c = true) :
    wordsAfter .word (some w) (c :: s) = wordsAfter .word (some (w ++ [c])) s :=
  wordsAfter_copy (plainRule_of_isPlain hc s)

/-- A character that starts a word. -/
theorem wordsAfter_first (hc : isPlain c = true) (hhash : c ≠ '#') (htilde : c ≠ '~') :
    wordsAfter .start none (c :: s) = wordsAfter .word (some [c]) s := by
  refine wordsAfter_copy (w := none) ?_
  simp only [isPlain, special, List.mem_cons, List.not_mem_nil, or_false, not_or,
    decide_eq_true_eq] at hc
  change plainRule true c s = _
  simp [plainRule, special, hc, hhash, htilde]

theorem wordsAfter_chars {a : List Char} (ha : ∀ c ∈ a, isPlain c = true) :
    wordsAfter .word (some w) (a ++ s) = wordsAfter .word (some (w ++ a)) s := by
  induction a generalizing w with
  | nil => simp
  | cons c a ih =>
    rw [List.forall_mem_cons] at ha
    rw [List.cons_append, wordsAfter_plain ha.1, ih ha.2, List.append_assoc,
      List.singleton_append]

/-- A blank after a word. -/
theorem wordsAfter_blank :
    wordsAfter .word (some w) (' ' :: s) = (wordsAfter .start none s).map (w :: ·) := by
  rw [wordsAfter_put [.brk] .start rfl, wordsAfter, Option.map_map]
  rfl

/-- A blank between words. -/
theorem wordsAfter_blanks : wordsAfter .start none (' ' :: s) = wordsAfter .start none s := by
  rw [wordsAfter_put [] .start rfl]
  rfl

/-- A word before a blank. -/
theorem wordsAfter_word {a : List Char} (ha : ∀ c ∈ a, isPlain c = true) (hne : a ≠ [])
    (hhash : a.head? ≠ some '#') (htilde : a.head? ≠ some '~') :
    wordsAfter .start none (a ++ s) = wordsAfter .word (some a) s := by
  cases a with
  | nil => exact absurd rfl hne
  | cons c a =>
    rw [List.forall_mem_cons] at ha
    rw [List.cons_append, wordsAfter_first ha.1 (by simpa using hhash) (by simpa using htilde),
      wordsAfter_chars ha.2]
    rfl

/-- Outside of quotations a character is refused, copied, or separates words. -/
theorem plainRule_cases (hc : c ∉ ['\'', '"', '\\', '#']) (atStart : Bool) (s : List Char) :
    plainRule atStart c s = .refuse ∨ plainRule atStart c s = .copy .word ∨
      ∃ out, plainRule atStart c s = .put out 0 .start := by
  simp only [List.mem_cons, List.not_mem_nil, or_false, not_or] at hc
  unfold plainRule
  simp only [hc, if_false, and_false]
  split_ifs <;> simp

/-- Characters that the shell reads as an operator, a pattern or a substitution. -/
def operators : List Char := ['\n', '|', '&', ';', '<', '>', '(', ')', '*', '?', '[', '`']

theorem plainRule_operator (hc : c ∈ operators) (atStart : Bool) (s : List Char) :
    plainRule atStart c s = .refuse := by
  have hrefused : ∀ c ∈ operators, c ≠ ' ' ∧ c ≠ '\t' ∧ c ≠ '\'' ∧ c ≠ '"' ∧ c ≠ '\\' ∧
      c ∈ special := by decide
  obtain ⟨hblank, htab, hsingle, hdouble, hslash, hspecial⟩ := hrefused c hc
  simp [plainRule, hblank, htab, hsingle, hdouble, hslash, hspecial]

/-- A line with an operator has not only words. -/
theorem words_operator {l : List Char} (hc : c ∈ operators) (hmem : c ∈ l)
    (hl : ∀ d ∈ l, d ∉ ['\'', '"', '\\', '#']) : words l = none := by
  have hscan : scanner.scan 0 .start l = none ∧ scanner.scan 0 .word l = none := by
    induction l with
    | nil => cases hmem
    | cons d l ih =>
      rw [List.forall_mem_cons] at hl
      by_cases hdc : d = c
      · subst hdc
        exact ⟨scan_refuse (plainRule_operator hc true l),
          scan_refuse (plainRule_operator hc false l)⟩
      · obtain ⟨hstart, hword⟩ := ih ((List.mem_cons.1 hmem).resolve_left (Ne.symm hdc)) hl.2
        have hone : ∀ mode atStart, rule mode d l = plainRule atStart d l →
            scanner.scan 0 mode (d :: l) = none := by
          intro mode atStart hmode
          rcases plainRule_cases hl.1 atStart l with hrule | hrule | ⟨out, hrule⟩
          · exact scan_refuse (hmode.trans hrule)
          · rw [scan_copy (S := scanner) (hmode.trans hrule), hword]
            rfl
          · rw [scan_put (S := scanner) (hmode.trans hrule), hstart]
            rfl
        exact ⟨hone .start true rfl, hone .word false rfl⟩
  rw [words, hscan.1]
  rfl

end

/-! ### Quoted words -/

/-- The text between the outer quotes, with every quote of it spliced in. -/
def quoted (v : List Char) : List Char :=
  v.flatMap fun c => if c = '\'' then ['\'', '\\', '\'', '\''] else [c]

theorem wordsAfter_single (v w s : List Char) :
    wordsAfter .single (some w) (quoted v ++ '\'' :: s) = wordsAfter .word (some (w ++ v)) s := by
  induction v generalizing w with
  | nil =>
    rw [List.append_nil, quoted, List.flatMap_nil, List.nil_append,
      wordsAfter_put [] .word rfl]
    rfl
  | cons c v ih =>
    rw [quoted, List.flatMap_cons, ← quoted]
    by_cases hc : c = '\''
    · -- the quotation is closed, the quote comes after a backslash, and a new quotation starts
      subst hc
      have hsplice : ∀ r, wordsAfter .single (some w) ('\'' :: '\\' :: '\'' :: '\'' :: r) =
          wordsAfter .single (some (w ++ ['\''])) r := by
        intro r
        have hescaped : scanner.rule .word '\\' ('\'' :: '\'' :: r) =
            .put [.char '\''] 1 .word := rfl
        have hquote : scanner.rule .word '\'' r = .put [.mark] 0 .single := rfl
        rw [wordsAfter_put [] .word rfl,
          scan_put hescaped, scan_succ_cons, scan_put hquote,
          Option.map_map, Option.map_map]
        rfl
      rw [if_pos rfl]
      simp only [List.cons_append, List.nil_append]
      rw [hsplice, ih, List.append_assoc, List.singleton_append]
    · have hcopy : ∀ r, rule .single c r = .copy .single := fun r => if_neg hc
      rw [if_neg hc, List.singleton_append, List.cons_append, wordsAfter_copy (hcopy _), ih]
      simp

/-- A quotation is a part of a word, or a word of its own. -/
theorem wordsAfter_quoted (v s : List Char) :
    wordsAfter .start none ('\'' :: (quoted v ++ '\'' :: s)) = wordsAfter .word (some v) s := by
  rw [wordsAfter_put [.mark] .single rfl]
  exact wordsAfter_single v [] s

/-! ### Lines -/

/-- Where in a script a scanner is. -/
inductive Place
  | start
  | word
  | single
  | double
  | comment
  | escaped
  | escapedDouble
  deriving DecidableEq

/-- A quotation, or an escape, that something has to follow. -/
def Place.isOpen : Place → Bool
  | .single | .double | .escaped | .escapedDouble => true
  | .start | .word | .comment => false

/-- A character outside of quotations, `none` at a line break. -/
def plainStep (c : Char) : Option Place :=
  if c = '\n' then none
  else if c = '\'' then some .single
  else if c = '"' then some .double
  else if c = '\\' then some .escaped
  else if c ∈ [' ', '\t', '|', '&', ';', '<', '>', '(', ')'] then some .start
  else some .word

/-- One character of a line, `none` at a line break that ends it. -/
def Place.step : Place → Char → Option Place
  | .start, c => if c = '#' then some .comment else plainStep c
  | .word, c => plainStep c
  | .single, c => some (if c = '\'' then .word else .single)
  | .double, c => some (if c = '"' then .word else if c = '\\' then .escapedDouble else .double)
  | .comment, c => if c = '\n' then none else some .comment
  | .escaped, _ => some .word
  | .escapedDouble, _ => some .double

/-- Where a text leads that is within a line. -/
def run : Place → List Char → Option Place
  | p, [] => some p
  | p, c :: s => (p.step c).bind (run · s)

/-- A character before the first line. -/
def push (c : Char) : List (List Char) → List (List Char)
  | [] => [[c]]
  | l :: ls => (c :: l) :: ls

/-- The lines of a script, the rest of the line at hand first. -/
def linesAfter : Place → List Char → Option (List (List Char))
  | p, [] => if p.isOpen then none else some [[]]
  | p, c :: s =>
      match p.step c with
      | none => (linesAfter .start s).map ([] :: ·)
      | some p => (linesAfter p s).map (push c)

/-- The lines of a script. -/
def scriptLines (script : List Char) : Option (List (List Char)) := linesAfter .start script

/-- The words of each line of a script. -/
def scriptWords (script : List Char) : Option (List (Option (List (List Char)))) :=
  (scriptLines script).map (List.map words)

theorem run_append (p : Place) (a b : List Char) : run p (a ++ b) = (run p a).bind (run · b) := by
  induction a generalizing p with
  | nil => rfl
  | cons c a ih =>
    simp only [List.cons_append, run]
    cases p.step c with
    | none => rfl
    | some p => exact ih p

/-- A line up to its end. -/
theorem linesAfter_append {p q : Place} {l : List Char} (h : run p l = some q)
    (hq : q.step '\n' = none) (s : List Char) :
    linesAfter p (l ++ '\n' :: s) = (linesAfter .start s).map (l :: ·) := by
  induction l generalizing p with
  | nil =>
    cases h
    rw [List.nil_append, linesAfter, hq]
  | cons c l ih =>
    obtain ⟨next, hstep, hrest⟩ := Option.bind_eq_some_iff.1 h
    rw [List.cons_append, linesAfter, hstep]
    dsimp only
    rw [ih hrest, Option.map_map]
    rfl

/-- A text that a line may consist of. -/
def IsLine (l : List Char) : Prop := ∃ q, run .start l = some q ∧ q.step '\n' = none

theorem scriptLines_cons {l : List Char} (h : IsLine l) (s : List Char) :
    scriptLines (l ++ '\n' :: s) = (scriptLines s).map (l :: ·) := by
  obtain ⟨q, hrun, hq⟩ := h
  exact linesAfter_append hrun hq s

/-- Ended lines are the lines of the script, with an empty rest. -/
theorem scriptLines_flatMap {ls : List (List Char)} (h : ∀ l ∈ ls, IsLine l) :
    scriptLines (ls.flatMap (· ++ ['\n'])) = some (ls ++ [[]]) := by
  induction ls with
  | nil => rfl
  | cons l ls ih =>
    rw [List.forall_mem_cons] at h
    rw [List.flatMap_cons, List.append_assoc, List.singleton_append, scriptLines_cons h.1, ih h.2]
    rfl

/-- A text without quotes, comments and line breaks. -/
theorem isLine_of_plain {l : List Char} (h : ∀ c ∈ l, c ∉ ['\'', '"', '\\', '#', '\n']) :
    IsLine l := by
  have hrun : ∀ p, p = .start ∨ p = .word → ∃ q, run p l = some q ∧ (q = .start ∨ q = .word) := by
    induction l with
    | nil => exact fun p hp => ⟨p, rfl, hp⟩
    | cons c l ih =>
      intro p hp
      rw [List.forall_mem_cons] at h
      have hc := h.1
      simp only [List.mem_cons, List.not_mem_nil, or_false, not_or] at hc
      have hstep : p.step c = plainStep c := by
        rcases hp with rfl | rfl
        · exact if_neg hc.2.2.2.1
        · rfl
      rw [run, hstep, plainStep]
      simp only [hc, if_false]
      split_ifs
      · exact ih h.2 .start (Or.inl rfl)
      · exact ih h.2 .word (Or.inr rfl)
  obtain ⟨q, hq, hplace⟩ := hrun .start (Or.inl rfl)
  exact ⟨q, hq, by rcases hplace with rfl | rfl <;> rfl⟩

theorem run_quoted (v : List Char) : run .single (quoted v) = some .single := by
  induction v with
  | nil => rfl
  | cons c v ih =>
    rw [quoted, List.flatMap_cons, ← quoted, run_append]
    have hone : run .single (if c = '\'' then ['\'', '\\', '\'', '\''] else [c]) = some .single := by
      split_ifs with hc
      · rfl
      · simp [run, Place.step, hc]
    rw [hone]
    exact ih

end Shell

end CommandLine
