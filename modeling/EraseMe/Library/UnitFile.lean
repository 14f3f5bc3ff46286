import EraseMe.Library.CommandLine
import EraseMe.Library.Paths

/-!
# Commands of systemd units

The words of a value, with quotations and escapes undone, then the specifiers and variables of each
word.  `argument` fails where a specifier or a variable would be filled in: the command is then not
a matter of the text alone.  An escape that is not known stays as it is.
-/

namespace CommandLine

open Scan

namespace UnitLine

/-- The character with the number that the first `width` digits write. -/
def numbered (base width limit : ℕ) (s : List Char) : Option Char :=
  let ds := s.take width
  if ds.length = width ∧ ds.all (fun d => digitValue d < base) then
    let n := numeral base ds
    if 0 < n ∧ n ≤ limit ∧ n.isValidChar then some (Char.ofNat n) else none
  else none

/-- The escapes of one letter. -/
def letter : Char → Option Char
  | 'a' => some (Char.ofNat 7)
  | 'b' => some (Char.ofNat 8)
  | 'f' => some (Char.ofNat 12)
  | 'n' => some '\n'
  | 'r' => some '\r'
  | 't' => some '\t'
  | 'v' => some (Char.ofNat 11)
  | '\\' => some '\\'
  | '"' => some '"'
  | '\'' => some '\''
  | 's' => some ' '
  | _ => none

/-- The escape after a backslash: its character and how many characters it takes. -/
def escape : List Char → Option (Char × ℕ)
  | [] => none
  | c :: s =>
      match letter c with
      | some d => some (d, 1)
      | none =>
          if c = 'x' then (numbered 16 2 255 s).map (·, 3)
          else if c = 'u' then (numbered 16 4 0xFFFF s).map (·, 5)
          else if c = 'U' then (numbered 16 8 0x10FFFF s).map (·, 9)
          else (numbered 8 3 255 (c :: s)).map (·, 3)

/-- After a backslash: a known escape, or else the backslash itself. -/
def escapeRule (s : List Char) (next : Mode) : Rule Mode Sym :=
  match escape s with
  | some (c, n) => .put [.char c] n next
  | none => .copy next

/-- Outside of quotations. -/
def plainRule (atStart : Bool) (c : Char) (s : List Char) : Rule Mode Sym :=
  if c = ' ' ∨ c = '\t' then .put (if atStart then [] else [.brk]) 0 .start
  else if c = '\'' then .put [.mark] 0 .single
  else if c = '"' then .put [.mark] 0 .double
  else if c = '\\' then escapeRule s .word
  else .copy .word

/-- Inside of a quotation. -/
def quotedRule (quote : Char) (mode : Mode) (c : Char) (s : List Char) : Rule Mode Sym :=
  if c = quote then .put [] 0 .word
  else if c = '\\' then escapeRule s mode
  else .copy mode

/-- The rule of each mode. -/
def rule : Mode → Char → List Char → Rule Mode Sym
  | .start, c, s => plainRule true c s
  | .word, c, s => plainRule false c s
  | .single, c, s => quotedRule '\'' .single c s
  | .double, c, s => quotedRule '"' .double c s

/-- The scanner of a command line. -/
def scanner : Scanner Mode Char Sym where
  rule := rule
  accept q := q = .start ∨ q = .word
  lift := .char
  weight := Sym.weight
  weight_lift := Sym.weight_char

/-- The words of a value, with quotations and escapes undone. -/
def words (line : List Char) : Option (List (List Char)) :=
  (scanner.scan 0 .start line).map (wordsFrom none)

/-- The letters of `systemd.unit`'s table of specifiers. -/
def specifiers : List Char := "aAbBCdDEfgGhHiIjJlLmMnNopPqsStTuUvVwWyY".toList

/-- A specifier. -/
def specifierRule (_ : Unit) (c : Char) (s : List Char) : Rule Unit Char :=
  if c = '%' then
    match s with
    | [] => .copy ()
    | d :: _ => if d = '%' then .put ['%'] 1 () else if d ∈ specifiers then .refuse else .copy ()
  else .copy ()

/-- Whether a dollar sign before this refers to a variable. -/
def refers : List Char → Bool
  | '{' :: s => '}' ∈ s
  | _ => false

/-- A variable. -/
def variableRule (_ : Unit) (c : Char) (s : List Char) : Rule Unit Char :=
  if c = '$' then
    if s.head? = some '$' then .put ['$'] 1 ()
    else if refers s then .refuse
    else .copy ()
  else .copy ()

/-- The argument a word stands for, when that does not depend on the unit or its environment. -/
def argument (word : List Char) : Option (List Char) := do
  let word ← (charScanner specifierRule).scan 0 () word
  (charScanner variableRule).scan 0 () word

/-- The command of a value of `ExecStart`. -/
def command (value : List Char) : Option (List (List Char)) := do
  let ws ← words value
  ws.mapM argument

theorem escape_pos {s : List Char} {c : Char} {n : ℕ} (h : escape s = some (c, n)) : 1 ≤ n := by
  cases s with
  | nil => cases h
  | cons d s =>
    simp only [escape] at h
    split at h
    · cases h
      exact le_rfl
    · split_ifs at h <;>
        (obtain ⟨e, -, heq⟩ := Option.map_eq_some_iff.1 h; cases heq; decide)

theorem escapeRule_eq_put {s : List Char} {q next : Mode} {out : List Sym} {skip : ℕ}
    (h : escapeRule s q = .put out skip next) :
    ∃ c, escape s = some (c, skip) ∧ out = [.char c] ∧ next = q := by
  unfold escapeRule at h
  split at h
  · next c n hescape =>
    cases h
    exact ⟨c, hescape, rfl, rfl⟩
  · cases h

theorem quotedRule_eq_put {quote : Char} {q next : Mode} {c : Char} {s : List Char}
    {out : List Sym} {skip : ℕ} (h : quotedRule quote q c s = .put out skip next) :
    (c = quote ∧ out = [] ∧ skip = 0 ∧ next = .word) ∨
      (c = '\\' ∧ ∃ d, escape s = some (d, skip) ∧ out = [.char d] ∧ next = q) := by
  unfold quotedRule at h
  split_ifs at h with hquote hback
  · cases h
    exact Or.inl ⟨hquote, rfl, rfl, rfl⟩
  · exact Or.inr ⟨hback, escapeRule_eq_put h⟩

theorem quotedRule_eq_copy {quote : Char} {q next : Mode} {c : Char} {s : List Char} :
    quotedRule quote q c s = .copy next ↔
      c ≠ quote ∧ (c = '\\' → escape s = none) ∧ next = q := by
  unfold quotedRule escapeRule
  by_cases hquote : c = quote
  · simp [hquote]
  · by_cases hback : c = '\\'
    · cases hescape : escape s with
      | none =>
        rw [if_neg hquote, if_pos hback, Rule.copy.injEq]
        simp [hquote, eq_comm]
      | some p =>
        rw [if_neg hquote, if_pos hback]
        simp [hback]
    · simp [hquote, hback, eq_comm]

theorem shortensStrictly : scanner.ShortensStrictly := by
  intro q c s out skip next h
  change rule q c s = .put out skip next at h
  have hescape : ∀ {q' : Mode}, escapeRule s q' = .put out skip next →
      scanner.total out ≤ skip := by
    intro q' hq
    obtain ⟨d, hd, rfl, -⟩ := escapeRule_eq_put hq
    exact escape_pos hd
  have hplain : ∀ b, plainRule b c s = .put out skip next → scanner.total out ≤ skip := by
    intro b hb
    unfold plainRule at hb
    split_ifs at hb
    all_goals first
      | exact hescape hb
      | (cases hb; simp [scanner, Scanner.total, Sym.weight])
  have hquoted : ∀ quote mode, quotedRule quote mode c s = .put out skip next →
      scanner.total out ≤ skip := by
    intro quote mode hm
    rcases quotedRule_eq_put hm with ⟨-, rfl, rfl, -⟩ | ⟨-, d, hd, rfl, -⟩
    · exact le_rfl
    · exact escape_pos hd
  cases q with
  | start => exact hplain true h
  | word => exact hplain false h
  | single => exact hquoted _ _ h
  | double => exact hquoted _ _ h

/-- A double quotation mark is copied inside of single ones only. -/
theorem not_plain_quote {q : Mode} (hq : q ≠ .single) (s : List Char) :
    ¬ scanner.Plain q (s ++ ['"']) := by
  have hstep : ∀ q, q ≠ Mode.single → ∀ c s next, rule q c s = .copy next → next ≠ .single := by
    intro q hq c s next h
    cases q with
    | single => exact absurd rfl hq
    | double =>
      rw [(quotedRule_eq_copy.1 h).2.2]
      decide
    | _ =>
      simp only [rule, plainRule, escapeRule] at h
      split_ifs at h
      all_goals first
        | (cases h; decide)
        | (split at h <;> cases h; decide)
  induction s generalizing q with
  | nil =>
    rintro ⟨next, hrule, -⟩
    cases q with
    | single => exact hq rfl
    | start => cases hrule
    | word => cases hrule
    | double => cases hrule
  | cons c s ih =>
    rintro ⟨next, hrule, hrest⟩
    exact ih (hstep q hq c _ next hrule) hrest

/-- The copied part of a quotation, up to the mark that ends it. -/
def Quotable (s : List Char) : Prop :=
  ∀ u c v, s = u ++ c :: v → rule .double c (v ++ ['"']) = .copy .double

theorem scan_quotable {s : List Char} (h : Quotable s) :
    scanner.scan 0 .double (s ++ ['"']) = some (s.map .char) := by
  induction s with
  | nil => rfl
  | cons c s ih =>
    have hrest : Quotable s := fun u d v huv => h (c :: u) d v (by rw [huv, List.cons_append])
    have hrule : scanner.rule .double c (s ++ ['"']) = .copy .double := h [] c s rfl
    rw [List.cons_append, scan_copy hrule, ih hrest]
    rfl

/-- A quotation is at most as heavy as what stands between its marks. -/
theorem total_quotation_le {q : Mode} (hq : q ≠ .single) {s : List Char} {out : List Sym}
    (h : scanner.scan 0 q (s ++ ['"']) = some out) : scanner.total out ≤ s.length := by
  have hle := total_scan_le shortensStrictly.shortens h
  have hne : scanner.total out ≠ (s ++ ['"']).length := fun htotal =>
    not_plain_quote hq s (plain_of_total_eq shortensStrictly h htotal)
  rw [List.length_append, List.length_singleton] at hle hne
  omega

/-- Only a copied quotation is as heavy as what stands between its marks. -/
theorem quotable_of_total_eq {s : List Char} {out : List Sym}
    (h : scanner.scan 0 .double (s ++ ['"']) = some out) (htotal : scanner.total out = s.length) :
    Quotable s := by
  induction s generalizing out with
  | nil =>
    intro u c v huv
    simp at huv
  | cons c s ih =>
    rw [List.length_cons] at htotal
    rw [List.cons_append] at h
    rcases scan_cons_cases h with ⟨next, rest, hrule, hrest, rfl⟩ |
      ⟨front, skip, next, rest, hrule, hle, hrest, rfl⟩
    · have hnext : next = .double := (quotedRule_eq_copy.1 hrule).2.2
      subst hnext
      have hw : scanner.total (scanner.lift c :: rest) = 1 + scanner.total rest := total_cons _ _
      intro u d v huv
      rcases List.cons_eq_append_iff.1 huv with ⟨rfl, heq⟩ | ⟨u, rfl, rfl⟩
      · cases heq
        exact hrule
      · exact ih hrest (by omega) u d v rfl
    · exfalso
      rcases quotedRule_eq_put hrule with ⟨-, rfl, rfl, rfl⟩ | ⟨-, d, hd, rfl, rfl⟩
      · -- the quotation ended here: the rest is too light
        have := total_quotation_le (by decide) hrest
        rw [List.nil_append] at htotal
        omega
      · have hpos := escape_pos hd
        have hw : scanner.total ([Sym.char d] ++ rest) = 1 + scanner.total rest :=
          total_append _ _
        rw [List.length_append, List.length_singleton] at hle
        rcases Nat.lt_or_ge s.length skip with hlong | hshort
        · -- the escape took the mark itself
          rw [List.drop_eq_nil_of_le (by rw [List.length_append, List.length_singleton]; omega)]
            at hrest
          cases hrest
        · rw [List.drop_append_of_le_length hshort] at hrest
          have := total_quotation_le (by decide) hrest
          rw [List.length_drop] at this
          omega

/-- A text that a double quotation of a unit gives back as it is. -/
structure Literal (s : List Char) : Prop where
  quote : '"' ∉ s
  escape : ∀ u v, s = u ++ '\\' :: v → escape v = none
  specifier : ∀ u d v, s = u ++ '%' :: d :: v → d ≠ '%' ∧ d ∉ specifiers
  reference : ∀ u v, s = u ++ '$' :: v → v.head? ≠ some '$' ∧ refers v = false

theorem numbered_append_slash (base width limit : ℕ) (hbase : base ≤ 16) (s t : List Char) :
    numbered base width limit (s ++ '/' :: t) = numbered base width limit s := by
  rcases Nat.lt_or_ge s.length width with hlt | hge
  · have hshort : (s.take width).length ≠ width := by
      rw [List.length_take]
      omega
    have hslash : '/' ∈ (s ++ '/' :: t).take width := by
      rw [List.take_append, List.take_of_length_le hlt.le]
      obtain ⟨k, hk⟩ : ∃ k, width - s.length = k + 1 := ⟨width - s.length - 1, by omega⟩
      rw [hk, List.take_succ_cons]
      simp
    have hall : ((s ++ '/' :: t).take width).all (fun d => digitValue d < base) = false := by
      rw [List.all_eq_false]
      refine ⟨'/', hslash, ?_⟩
      have : digitValue '/' = 16 := rfl
      simp [this, hbase]
    simp only [numbered, hall, hshort, Bool.false_eq_true, and_false, false_and, if_false]
  · simp only [numbered, List.take_append_of_le_length hge]

theorem escape_append_slash (s t : List Char) : escape (s ++ '/' :: t) = escape s := by
  cases s with
  | nil =>
    have hnumbered := numbered_append_slash 8 3 255 (by decide) [] t
    simp only [List.nil_append] at hnumbered
    simp only [List.nil_append, escape, letter, hnumbered]
    rfl
  | cons c s =>
    simp only [List.cons_append, escape]
    rw [← List.cons_append]
    simp only [numbered_append_slash _ _ _ (le_refl 16),
      numbered_append_slash 8 3 255 (by decide) (c :: s) t]

theorem quotable_append_iff {s t : List Char} (ht : Quotable ('/' :: t)) :
    Quotable (s ++ '/' :: t) ↔ '"' ∉ s ∧ ∀ u v, s = u ++ '\\' :: v → escape v = none := by
  have hrule : ∀ c v, rule .double c ((v ++ '/' :: t) ++ ['"']) = .copy .double ↔
      c ≠ '"' ∧ (c = '\\' → escape v = none) := by
    intro c v
    change quotedRule '"' .double c _ = _ ↔ _
    rw [quotedRule_eq_copy, List.append_assoc, List.cons_append, escape_append_slash]
    simp
  constructor
  · intro h
    refine ⟨fun hmem => ?_, fun u v huv => ?_⟩
    · obtain ⟨u, v, rfl⟩ := List.append_of_mem hmem
      have hcopy := h u '"' (v ++ '/' :: t) (by simp)
      exact ((hrule _ _).1 hcopy).1 rfl
    · have hcopy := h u '\\' (v ++ '/' :: t) (by rw [huv, List.append_assoc, List.cons_append])
      exact ((hrule _ _).1 hcopy).2 rfl
  · rintro ⟨hquote, hescape⟩ u c v huv
    rcases List.append_eq_append_iff.1 huv with ⟨w, rfl, hw⟩ | ⟨w, hw, hv⟩
    · exact ht w c v hw
    · cases w with
      | nil => exact ht [] c v hv.symm
      | cons d w =>
        cases hv
        refine (hrule c w).2 ⟨fun hc => hquote (by simp [hw, hc]), fun hc => ?_⟩
        exact hescape u w (by rw [hw, hc])

theorem specifier_shortensStrictly : (charScanner specifierRule).ShortensStrictly := by
  intro q c s out skip next h
  change specifierRule q c s = _ at h
  unfold specifierRule at h
  split_ifs at h
  split at h
  · cases h
  · split_ifs at h
    cases h
    exact le_rfl

theorem variable_shortensStrictly : (charScanner variableRule).ShortensStrictly := by
  intro q c s out skip next h
  change variableRule q c s = _ at h
  unfold variableRule at h
  split_ifs at h
  cases h
  exact le_rfl

/-- An argument is at most as long as its word. -/
theorem length_argument_le {word arg : List Char} (h : argument word = some arg) :
    arg.length ≤ word.length := by
  simp only [argument, Option.bind_eq_bind, Option.bind_eq_some_iff] at h
  obtain ⟨mid, hspec, hvar⟩ := h
  have h1 := total_scan_le specifier_shortensStrictly.shortens hspec
  have h2 := total_scan_le variable_shortensStrictly.shortens hvar
  rw [total_charScanner] at h1 h2
  exact h2.trans h1

/-- A word is its own argument exactly when both passes copy it. -/
theorem argument_eq_self_iff (word : List Char) :
    argument word = some word ↔
      (charScanner specifierRule).Plain () word ∧ (charScanner variableRule).Plain () word := by
  have hid : ∀ rule, word.map (charScanner rule).lift = word := fun rule => List.map_id word
  constructor
  · intro h
    simp only [argument, Option.bind_eq_bind, Option.bind_eq_some_iff] at h
    obtain ⟨mid, hspec, hvar⟩ := h
    have h1 := total_scan_le specifier_shortensStrictly.shortens hspec
    have h2 := total_scan_le variable_shortensStrictly.shortens hvar
    rw [total_charScanner] at h1 h2
    have hplain := plain_of_total_eq specifier_shortensStrictly hspec
      (by rw [total_charScanner]; omega)
    have hcopy := scan_of_plain hplain
    rw [hid, hspec, Option.some.injEq] at hcopy
    subst hcopy
    refine ⟨hplain, plain_of_total_eq variable_shortensStrictly hvar ?_⟩
    rw [total_charScanner]
  · rintro ⟨hspec, hvar⟩
    have h1 := scan_of_plain hspec
    have h2 := scan_of_plain hvar
    rw [hid] at h1 h2
    simp only [argument, h1, h2, Option.bind_eq_bind, Option.bind_some]

/-- Characters that a unit may read otherwise than as themselves. -/
def special : List Char := [' ', '\t', '\'', '"', '\\', '%', '$', '}']

theorem charScanner_plain_of_not_special {s : List Char} (h : ∀ c ∈ s, c ∉ special) :
    (charScanner specifierRule).Plain () s ∧ (charScanner variableRule).Plain () s := by
  have hne : ∀ c ∈ s, c ≠ '%' ∧ c ≠ '$' := by
    intro c hc
    have := h c hc
    simp only [special, List.mem_cons, not_or] at this
    exact ⟨this.2.2.2.2.2.1, this.2.2.2.2.2.2.1⟩
  have h1 := plain_append_iff (S := charScanner specifierRule) charScanner_stable (s := s)
    (t := []) rfl
  have h2 := plain_append_iff (S := charScanner variableRule) charScanner_stable (s := s)
    (t := []) rfl
  rw [List.append_nil] at h1 h2
  rw [h1, h2]
  constructor
  · rintro u c v rfl
    exact if_neg (hne c (by simp)).1
  · rintro u c v rfl
    exact if_neg (hne c (by simp)).2

section Path

variable {s t : List Char} (ht : ∀ c ∈ t, c ∉ special)

include ht

theorem quotable_tail : Quotable ('/' :: t) := by
  intro u c v huv
  change quotedRule '"' .double c _ = _
  rw [quotedRule_eq_copy]
  rcases List.cons_eq_append_iff.1 huv with ⟨rfl, heq⟩ | ⟨u, rfl, rfl⟩
  · cases heq
    exact ⟨by decide, fun h => absurd h (by decide), rfl⟩
  · have hc := ht c (by simp)
    simp only [special, List.mem_cons, not_or] at hc
    exact ⟨hc.2.2.2.1, fun h => absurd h hc.2.2.2.2.1, rfl⟩

theorem specifier_plain_append_iff :
    (charScanner specifierRule).Plain () (s ++ '/' :: t) ↔
      ∀ u d v, s = u ++ '%' :: d :: v → d ≠ '%' ∧ d ∉ specifiers := by
  have htail : (charScanner specifierRule).Plain () ('/' :: t) :=
    ⟨(), rfl, (charScanner_plain_of_not_special ht).1⟩
  rw [plain_append_iff charScanner_stable htail]
  constructor
  · intro h u d v huv
    have hrule := h u '%' (d :: v) huv
    change (if d = '%' then _ else _) = _ at hrule
    split_ifs at hrule with hd hmem
    exact ⟨hd, hmem⟩
  · intro h u c v huv
    change (if c = '%' then _ else _) = _
    split_ifs with hc
    · cases v with
      | nil => rfl
      | cons d v =>
        obtain ⟨hd, hmem⟩ := h u d v (by rw [huv, hc])
        simp only [List.cons_append, hd, hmem, if_false]
    · rfl

theorem variable_plain_append_iff :
    (charScanner variableRule).Plain () (s ++ '/' :: t) ↔
      ∀ u v, s = u ++ '$' :: v → v.head? ≠ some '$' ∧ refers v = false := by
  have htail : (charScanner variableRule).Plain () ('/' :: t) :=
    ⟨(), rfl, (charScanner_plain_of_not_special ht).2⟩
  have hbrace : '}' ∉ t := fun hmem => ht _ hmem (by decide)
  have hhead : ∀ v : List Char, (v ++ '/' :: t).head? = some '$' ↔ v.head? = some '$' := by
    intro v
    cases v <;> simp
  have hrefers : ∀ v : List Char, refers (v ++ '/' :: t) = refers v := by
    intro v
    cases v with
    | nil => rfl
    | cons d v =>
      by_cases hd : d = '{'
      · subst hd
        simp [refers, hbrace]
      · simp [refers, hd]
  rw [plain_append_iff charScanner_stable htail]
  constructor
  · intro h u v huv
    have hrule := h u '$' v huv
    change (if (v ++ '/' :: t).head? = some '$' then _ else _) = _ at hrule
    split_ifs at hrule with h1 h2
    rw [hhead] at h1
    rw [hrefers] at h2
    exact ⟨h1, by simpa using h2⟩
  · intro h u c v huv
    change (if c = '$' then _ else _) = _
    split_ifs with hc h1 h2
    · rw [hhead] at h1
      exact absurd h1 (h u v (by rw [huv, hc])).1
    · rw [hrefers, (h u v (by rw [huv, hc])).2] at h2
      cases h2
    · rfl
    · rfl

variable {program : List Char} (hne : program ≠ []) (hprogram : ∀ c ∈ program, c ∉ special)

omit ht in
theorem scan_word_append (h : ∀ c ∈ program, c ∉ special) (s : List Char) :
    scanner.scan 0 .word (program ++ s) =
      (scanner.scan 0 .word s).map (program.map .char ++ ·) := by
  induction program with
  | nil => simp
  | cons c w ih =>
    have hc := h c List.mem_cons_self
    simp only [special, List.mem_cons, not_or] at hc
    have hrule : scanner.rule .word c (w ++ s) = .copy .word := by
      change plainRule false c _ = _
      simp [plainRule, hc]
    rw [List.cons_append, scan_copy hrule, ih fun d hd => h d (List.mem_cons_of_mem _ hd),
      Option.map_map]
    rfl

include hne hprogram

omit ht in
/-- A program before a quotation. -/
theorem words_program (s : List Char) :
    words (program ++ ' ' :: '"' :: s) =
      (scanner.scan 0 .double s).map fun out => program :: wordsFrom (some []) out := by
  cases program with
  | nil => exact absurd rfl hne
  | cons c w =>
    have hc := hprogram c List.mem_cons_self
    simp only [special, List.mem_cons, not_or] at hc
    have hrule : ∀ r, scanner.rule .start c r = .copy .word := by
      intro r
      change plainRule true c r = _
      simp [plainRule, hc]
    have hblank : ∀ r, scanner.scan 0 .word (' ' :: '"' :: r) =
        (scanner.scan 0 .double r).map (fun out => .brk :: .mark :: out) := by
      intro r
      have h1 : scanner.rule .word ' ' ('"' :: r) = .put [.brk] 0 .start := rfl
      have h2 : scanner.rule .start '"' r = .put [.mark] 0 .double := rfl
      rw [scan_put h1, scan_put h2, Option.map_map]
      rfl
    rw [words, List.cons_append, scan_copy (hrule _),
      scan_word_append (fun d hd => hprogram d (List.mem_cons_of_mem _ hd)), hblank,
      Option.map_map, Option.map_map, Option.map_map]
    congr 1
    funext out
    simp only [Function.comp, scanner, wordsFrom, Option.getD_none, List.nil_append]
    rw [wordsFrom_chars_brk, List.singleton_append]
    rfl

omit ht hne hprogram in
theorem mapM_eq_singleton {f : List Char → Option (List Char)} {ws : List (List Char)}
    {arg : List Char} (h : ws.mapM f = some [arg]) : ∃ w, ws = [w] ∧ f w = some arg := by
  cases ws with
  | nil => simp at h
  | cons w ws =>
    rw [List.mapM_cons, Option.bind_eq_bind, Option.bind_eq_some_iff] at h
    obtain ⟨a, ha, h⟩ := h
    rw [Option.bind_eq_bind, Option.bind_eq_some_iff] at h
    obtain ⟨rest, hrest, h⟩ := h
    cases h
    cases ws with
    | nil => exact ⟨w, rfl, ha⟩
    | cons w' ws => simp [List.mapM_cons, Option.bind_eq_some_iff] at hrest

omit ht in
/-- The argument of a program before a quotation, from the word it was. -/
theorem command_program {r arg : List Char}
    (h : command (program ++ ' ' :: '"' :: r) = some [program, arg]) :
    ∃ out w, scanner.scan 0 .double r = some out ∧ wordsFrom (some []) out = [w] ∧
      w.length = scanner.total out ∧ argument w = some arg := by
  have hself : argument program = some program :=
    (argument_eq_self_iff _).2 (charScanner_plain_of_not_special hprogram)
  rw [command, words_program hne hprogram, Option.bind_eq_bind, Option.bind_eq_some_iff] at h
  obtain ⟨ws, hws, hargs⟩ := h
  obtain ⟨out, hscan, rfl⟩ := Option.map_eq_some_iff.1 hws
  rw [List.mapM_cons, hself, Option.pure_def, Option.bind_eq_bind, Option.bind_some,
    Option.bind_eq_bind, Option.bind_eq_some_iff] at hargs
  obtain ⟨args, hmap, hargs⟩ := hargs
  simp only [Option.some.injEq, List.cons.injEq, true_and] at hargs
  subst hargs
  obtain ⟨w, hw, harg⟩ := mapM_eq_singleton hmap
  have hlen := length_flatten_wordsFrom (some []) out
  rw [hw] at hlen
  exact ⟨out, w, hscan, hw, by simpa [Scanner.total, scanner] using hlen, harg⟩

/-- The command of a quoted path is the path exactly when the path is literal. -/
theorem command_eq_iff :
    command (program ++ ' ' :: '"' :: ((s ++ '/' :: t) ++ ['"'])) =
      some [program, s ++ '/' :: t] ↔ Literal s := by
  have hself : argument program = some program :=
    (argument_eq_self_iff _).2 (charScanner_plain_of_not_special hprogram)
  have hLiteral : Literal s ↔ Quotable (s ++ '/' :: t) ∧
      argument (s ++ '/' :: t) = some (s ++ '/' :: t) := by
    rw [quotable_append_iff (quotable_tail ht), argument_eq_self_iff,
      specifier_plain_append_iff ht, variable_plain_append_iff ht]
    constructor
    · rintro ⟨hquote, hescape, hspec, href⟩
      exact ⟨⟨hquote, hescape⟩, hspec, href⟩
    · rintro ⟨⟨hquote, hescape⟩, hspec, href⟩
      exact ⟨hquote, hescape, hspec, href⟩
  rw [hLiteral]
  constructor
  · intro h
    obtain ⟨out, w, hscan, hw, htotal, harg⟩ := command_program hne hprogram h
    have hle := length_argument_le harg
    have hge := total_quotation_le (by decide) hscan
    have hquotable := quotable_of_total_eq hscan (by omega)
    rw [scan_quotable hquotable, Option.some.injEq] at hscan
    rw [← hscan, wordsFrom_chars, List.nil_append, List.cons.injEq] at hw
    rw [← hw.1] at harg
    exact ⟨hquotable, harg⟩
  · rintro ⟨hquotable, harg⟩
    rw [command, words_program hne hprogram, scan_quotable hquotable, Option.map_some,
      Option.bind_eq_bind, Option.bind_some, wordsFrom_chars, List.nil_append]
    simp [hself, harg]

end Path

/-- The lines of a unit. -/
def lines (unit : List Char) : List (List Char) :=
  Text.splitOn '\n' (unit.map fun c => if c = '\r' ∨ c.toNat = 0 then '\n' else c)

/-- The value of a line that starts with a key. -/
def value (key line : List Char) : Option (List Char) :=
  if key.isPrefixOf line then some (line.drop key.length) else none

/-- The commands of the lines with a key, each as far as it can be read. -/
def commands (key unit : List Char) : List (Option (List (List Char))) :=
  ((lines unit).filterMap (value key)).map command

/-- The characters that end a line. -/
def isEol (c : Char) : Bool := c = '\n' ∨ c = '\r' ∨ c.toNat = 0

theorem lines_append (a b : List Char) : lines (a ++ '\n' :: b) = lines a ++ lines b := by
  simp only [lines, List.map_append, List.map_cons]
  exact Paths.splitOn_append_sep _ _ _

/-- A line ends at the first character that ends lines. -/
theorem lines_eol {a b : List Char} {c : Char} (hc : isEol c = true) :
    lines (a ++ c :: b) = lines a ++ lines b := by
  have hmap : (if c = '\r' ∨ c.toNat = 0 then '\n' else c) = '\n' := by
    simp only [isEol, decide_eq_true_eq] at hc
    split_ifs with h
    · rfl
    · exact hc.resolve_right h
  simp only [lines, List.map_append, List.map_cons, hmap]
  exact Paths.splitOn_append_sep _ _ _

theorem lines_of_not_eol {a : List Char} (h : ∀ c ∈ a, isEol c = false) : lines a = [a] := by
  have hmap : a.map (fun c => if c = '\r' ∨ c.toNat = 0 then '\n' else c) = a := by
    refine (List.map_congr_left fun c hc => ?_).trans (List.map_id a)
    have hc := h c hc
    simp only [isEol, decide_eq_false_iff_not, not_or] at hc
    simp [hc]
  rw [lines, hmap, Paths.splitOn_of_not_mem]
  intro hmem
  have := h _ hmem
  simp [isEol] at this

/-- The first character that ends a line. -/
theorem first_eol {s : List Char} {e : Char} (he : e ∈ s) (hend : isEol e = true) :
    ∃ u c v, s = u ++ c :: v ∧ (∀ d ∈ u, isEol d = false) ∧ isEol c = true := by
  induction s with
  | nil => cases he
  | cons d s ih =>
    cases hd : isEol d with
    | true => exact ⟨[], d, s, rfl, by simp, hd⟩
    | false =>
      rcases List.mem_cons.1 he with rfl | he
      · rw [hd] at hend
        cases hend
      · obtain ⟨u, c, v, rfl, hu, hc⟩ := ih he
        exact ⟨d :: u, c, v, rfl, by simpa [hd] using hu, hc⟩

theorem value_append (key s : List Char) : value key (key ++ s) = some s := by
  simp [value]

section Unit

variable (key program s t before rest : List Char)
  (hkey : ∀ c ∈ key, isEol c = false) (hne : program ≠ [])
  (hprogram : ∀ c ∈ program, c ∉ special ∧ isEol c = false)
  (ht : ∀ c ∈ t, c ∉ special ∧ isEol c = false)
  (hbefore : (lines before).filterMap (value key) = [])
  (hrest : (lines rest).filterMap (value key) = [])

include hkey hne hprogram ht hbefore hrest

/-- The one command of a unit is the quoted path exactly when the path is literal and on one
line. -/
theorem commands_eq_iff :
    commands key (before ++ '\n' :: ((key ++ (program ++ ' ' :: '"' :: ((s ++ '/' :: t) ++ ['"'])))
      ++ '\n' :: rest)) = [some [program, s ++ '/' :: t]] ↔
    Literal s ∧ ∀ c ∈ s, isEol c = false := by
  have hplainProgram : ∀ c ∈ program, c ∉ special := fun c hc => (hprogram c hc).1
  have hplainTail : ∀ c ∈ t, c ∉ special := fun c hc => (ht c hc).1
  rw [commands, lines_append, lines_append, List.filterMap_append, List.filterMap_append, hbefore,
    hrest, List.nil_append, List.append_nil]
  by_cases heol : ∀ c ∈ s, isEol c = false
  · have hline : ∀ c ∈ key ++ (program ++ ' ' :: '"' :: ((s ++ '/' :: t) ++ ['"'])),
        isEol c = false := by
      intro c hc
      simp only [List.mem_append, List.mem_cons, List.not_mem_nil, or_false] at hc
      rcases hc with hc | hc | rfl | rfl | (hc | rfl | hc) | rfl
      · exact hkey c hc
      · exact (hprogram c hc).2
      · rfl
      · rfl
      · exact heol c hc
      · rfl
      · exact (ht c hc).2
      · rfl
    rw [lines_of_not_eol hline, List.filterMap_cons, value_append, ← command_eq_iff hplainTail hne
      hplainProgram]
    rw [and_iff_left heol]
    simp only [List.filterMap_nil, List.map_cons, List.map_nil, List.cons.injEq, and_true]
  · refine iff_of_false (fun h => ?_) (fun h => heol h.2)
    -- the line of the command ends inside of the path
    push Not at heol
    obtain ⟨e, he, hend⟩ := heol
    obtain ⟨u, c, v, hs, hu, hc⟩ : ∃ u c v, s = u ++ c :: v ∧ (∀ d ∈ u, isEol d = false) ∧
        isEol c = true := first_eol he (by simpa using hend)
    have hfirst : ∀ c ∈ key ++ (program ++ ' ' :: '"' :: u), isEol c = false := by
      intro c hc
      simp only [List.mem_append, List.mem_cons] at hc
      rcases hc with hc | hc | rfl | rfl | hc
      · exact hkey c hc
      · exact (hprogram c hc).2
      · rfl
      · rfl
      · exact hu c hc
    have hsplit : key ++ (program ++ ' ' :: '"' :: ((s ++ '/' :: t) ++ ['"'])) =
        (key ++ (program ++ ' ' :: '"' :: u)) ++ c :: ((v ++ '/' :: t) ++ ['"']) := by
      simp [hs]
    rw [hsplit, lines_eol hc, lines_of_not_eol hfirst, List.singleton_append,
      List.filterMap_cons, value_append, List.map_cons, List.cons.injEq] at h
    obtain ⟨out, w, hscan, -, hw, harg⟩ := command_program hne hplainProgram h.1
    have hle := length_argument_le harg
    have hshort := total_scan_le shortensStrictly.shortens hscan
    have hlen := congrArg List.length hs
    simp only [List.length_append, List.length_cons] at hle hlen
    omega

end Unit

end UnitLine

end CommandLine
