import Mathlib.Data.List.TakeWhile
import Mathlib.Tactic

/-!
# Comma-separated values

A file of RFC 4180 is records of fields, with commas between the fields and CRLF between the
records; the last record may end with CRLF too.  A field without `,`, `"`, CR and LF may stand as
it is, and any field may stand between quotes with its own quotes doubled.  `readFile_eq_some` says
that `readFile` reads these files and no other texts.
-/

namespace Csv

/-- A field. -/
abbrev Field := List Char

/-- A record. -/
abbrev Record := List Field

/-- The characters of a field that is not quoted. -/
def isText (c : Char) : Bool := c ∉ [',', '"', '\r', '\n']

/-! ### The grammar -/

/-- A text with its quotes doubled. -/
def doubled (v : Field) : List Char := v.flatMap fun c => if c = '"' then ['"', '"'] else [c]

/-- The texts of a field. -/
inductive IsField (v : Field) : List Char → Prop
  | bare (h : ∀ c ∈ v, isText c = true) : IsField v v
  | quoted : IsField v ('"' :: (doubled v ++ ['"']))

/-- The texts of a record. -/
inductive IsRecord : Record → List Char → Prop
  | one {v : Field} {s : List Char} (h : IsField v s) : IsRecord [v] s
  | cons {v : Field} {r : Record} {s t : List Char} (h : IsField v s) (hr : IsRecord r t) :
      IsRecord (v :: r) (s ++ ',' :: t)

/-- The texts of a file; a blank last line is no record. -/
inductive IsFile : List Record → List Char → Prop
  | nil : IsFile [] []
  | last {r : Record} {s : List Char} (h : IsRecord r s) (hs : s ≠ []) : IsFile [r] s
  | cons {r : Record} {rs : List Record} {s t : List Char} (h : IsRecord r s) (hf : IsFile rs t) :
      IsFile (r :: rs) (s ++ '\r' :: '\n' :: t)

/-! ### The reader -/

/-- What is left of a quoted field, and what follows its closing quote. -/
def readQuoted : List Char → Option (Field × List Char)
  | [] => none
  | c :: s =>
      if c = '"' then
        match s with
        | '"' :: t => (readQuoted t).map fun r => ('"' :: r.1, r.2)
        | _ => some ([], s)
      else (readQuoted s).map fun r => (c :: r.1, r.2)

/-- The field at the start of a text, and what follows. -/
def readField : List Char → Option (Field × List Char)
  | '"' :: s => readQuoted s
  | s => some (s.span isText)

/-- One more field of the first record. -/
def consField (v : Field) : List Record → List Record
  | [] => [[v]]
  | r :: rs => (v :: r) :: rs

/-- The records from the start of a field on. -/
def readRecords : ℕ → List Char → Option (List Record)
  | 0, _ => none
  | n + 1, s =>
      (readField s).bind fun r =>
        match r.2 with
        | [] => some [[r.1]]
        | ',' :: t => (readRecords n t).map (consField r.1)
        | '\r' :: '\n' :: t => (if t = [] then some [] else readRecords n t).map ([r.1] :: ·)
        | _ => none

/-- Read a whole file. -/
def readFile (s : List Char) : Option (List Record) :=
  if s = [] then some [] else readRecords (s.length + 1) s

/-! ### Fields -/

variable {v : Field} {r : Record} {rs : List Record} {s t : List Char}

@[simp] theorem doubled_nil : doubled [] = [] := rfl

theorem doubled_quote (v : Field) : doubled ('"' :: v) = '"' :: '"' :: doubled v := rfl

theorem doubled_cons {c : Char} (h : c ≠ '"') (v : Field) : doubled (c :: v) = c :: doubled v := by
  rw [doubled, List.flatMap_cons, if_neg h]
  rfl

theorem readQuoted_quote (s : List Char) :
    readQuoted ('"' :: '"' :: s) = (readQuoted s).map fun r => ('"' :: r.1, r.2) := rfl

theorem readQuoted_closed (h : s.head? ≠ some '"') : readQuoted ('"' :: s) = some ([], s) := by
  rw [readQuoted.eq_def]
  cases s with
  | nil => rfl
  | cons c s =>
    have hc : c ≠ '"' := fun hc => h (congrArg some hc)
    simp only [if_true]
    split
    · next heq => exact absurd (List.cons.inj heq).1 hc
    · rfl

theorem readQuoted_char {c : Char} (h : c ≠ '"') (s : List Char) :
    readQuoted (c :: s) = (readQuoted s).map fun r => (c :: r.1, r.2) := by
  rw [readQuoted.eq_def]
  exact if_neg h

theorem readQuoted_doubled (h : t.head? ≠ some '"') (v : Field) :
    readQuoted (doubled v ++ '"' :: t) = some (v, t) := by
  induction v with
  | nil => exact readQuoted_closed h
  | cons c v ih =>
    by_cases hc : c = '"'
    · rw [hc, doubled_quote, List.cons_append, List.cons_append, readQuoted_quote, ih]
      rfl
    · rw [doubled_cons hc, List.cons_append, readQuoted_char hc, ih]
      rfl

/-- What `readQuoted` reads is a field with doubled quotes, up to a quote that is not doubled. -/
theorem readQuoted_eq_some : readQuoted s = some (v, t) ↔
    s = doubled v ++ '"' :: t ∧ t.head? ≠ some '"' := by
  constructor
  · intro h
    induction s using readQuoted.induct generalizing v with
    | case1 => cases h
    | case2 s ih =>
      rw [readQuoted_quote] at h
      obtain ⟨⟨w, u⟩, hw, heq⟩ := Option.map_eq_some_iff.1 h
      cases heq
      obtain ⟨rfl, hhead⟩ := ih hw
      exact ⟨rfl, hhead⟩
    | case3 s hs =>
      have hhead : s.head? ≠ some '"' := by
        cases s with
        | nil => exact fun h => nomatch h
        | cons c s => exact fun h => hs s (by rw [Option.some.inj h])
      rw [readQuoted_closed hhead] at h
      cases h
      exact ⟨rfl, hhead⟩
    | case4 c s hc ih =>
      rw [readQuoted_char hc] at h
      obtain ⟨⟨w, u⟩, hw, heq⟩ := Option.map_eq_some_iff.1 h
      cases heq
      obtain ⟨rfl, hhead⟩ := ih hw
      rw [doubled_cons hc]
      exact ⟨rfl, hhead⟩
  · rintro ⟨rfl, hhead⟩
    exact readQuoted_doubled hhead v

theorem readField_bare (h : s.head? ≠ some '"') : readField s = some (s.span isText) := by
  unfold readField
  split
  · exact absurd rfl h
  · rfl

/-- A field ends where the text or the record ends, or at a comma. -/
def Ends (t : List Char) : Prop := ∀ c ∈ t.head?, c = ',' ∨ c = '\r'

theorem readField_append (h : IsField v s) (ht : Ends t) : readField (s ++ t) = some (v, t) := by
  cases h with
  | bare h =>
    have hhead : (v ++ t).head? ≠ some '"' := by
      intro hquote
      cases v with
      | nil =>
        rcases ht _ hquote with hc | hc
        · exact absurd hc (by decide)
        · exact absurd hc (by decide)
      | cons c v =>
        rw [List.cons_append, List.head?_cons, Option.some.injEq] at hquote
        exact absurd (h c List.mem_cons_self) (by rw [hquote]; decide)
    have hstop : t.takeWhile isText = [] := by
      cases t with
      | nil => rfl
      | cons c t =>
        refine List.takeWhile_cons_of_neg ?_
        rcases ht c rfl with rfl | rfl
        · decide
        · decide
    rw [readField_bare hhead, List.span_eq_takeWhile_dropWhile, List.takeWhile_append_of_pos h,
      List.dropWhile_append_of_pos h, hstop, List.append_nil]
    have hdrop := List.takeWhile_append_dropWhile (p := isText) (l := t)
    rw [hstop, List.nil_append] at hdrop
    rw [hdrop]
  | quoted =>
    have hhead : t.head? ≠ some '"' := by
      intro hquote
      rcases ht _ hquote with hc | hc
      · exact absurd hc (by decide)
      · exact absurd hc (by decide)
    rw [List.cons_append, List.append_assoc, List.singleton_append]
    exact readQuoted_doubled hhead v

theorem isField_of_readField (h : readField s = some (v, t)) : ∃ u, s = u ++ t ∧ IsField v u := by
  by_cases hhead : s.head? = some '"'
  · obtain ⟨s, rfl⟩ := List.head?_eq_some_iff.1 hhead
    obtain ⟨rfl, -⟩ := readQuoted_eq_some.1 h
    exact ⟨'"' :: (doubled v ++ ['"']), by simp, .quoted⟩
  · rw [readField_bare hhead, List.span_eq_takeWhile_dropWhile] at h
    cases h
    exact ⟨_, List.takeWhile_append_dropWhile.symm, .bare fun c hc => List.mem_takeWhile_imp hc⟩

/-! ### Records -/

/-- The end of a file behind a record. -/
inductive Follows : List Record → List Char → Prop
  | nil : Follows [] []
  | crlf {rs : List Record} {t : List Char} (h : IsFile rs t) : Follows rs ('\r' :: '\n' :: t)

theorem IsRecord.isFile (h : IsRecord r s) (hf : Follows rs t) (hne : s ++ t ≠ []) :
    IsFile (r :: rs) (s ++ t) := by
  cases hf with
  | nil =>
    rw [List.append_nil] at hne ⊢
    exact .last h hne
  | crlf hf => exact .cons h hf

/-- What `readRecords` reads is a record and the end of a file. -/
theorem isRecord_of_readRecords {n : ℕ} (h : readRecords n s = some rs) :
    ∃ r rs' t u, rs = r :: rs' ∧ s = t ++ u ∧ IsRecord r t ∧ Follows rs' u := by
  induction n generalizing s rs with
  | zero => cases h
  | succ n ih =>
    rw [readRecords] at h
    obtain ⟨⟨v, t⟩, hfield, hread⟩ := Option.bind_eq_some_iff.1 h
    obtain ⟨u, rfl, hv⟩ := isField_of_readField hfield
    simp only at hread
    split at hread
    · cases hread
      exact ⟨[v], [], u, [], rfl, rfl, .one hv, .nil⟩
    · next rest =>
      obtain ⟨rs', hrest, rfl⟩ := Option.map_eq_some_iff.1 hread
      obtain ⟨r, rs', t, w, rfl, rfl, hr, hw⟩ := ih hrest
      exact ⟨v :: r, rs', u ++ ',' :: t, w, rfl, by simp, .cons hv hr, hw⟩
    · next rest =>
      obtain ⟨rs', hrest, rfl⟩ := Option.map_eq_some_iff.1 hread
      refine ⟨[v], rs', u, _, rfl, rfl, .one hv, .crlf ?_⟩
      by_cases hempty : rest = []
      · rw [if_pos hempty] at hrest
        cases hrest
        rw [hempty]
        exact .nil
      · rw [if_neg hempty] at hrest
        obtain ⟨r, rs', t, w, rfl, rfl, hr, hw⟩ := ih hrest
        exact hr.isFile hw hempty
    · cases hread

theorem readRecords_append (h : IsRecord r s) {n : ℕ} (hn : (s ++ t).length < n)
    (ht : t = [] ∧ rs = [] ∨ ∃ w, t = '\r' :: '\n' :: w ∧
      ∀ n, w.length < n → (if w = [] then some [] else readRecords n w) = some rs) :
    readRecords n (s ++ t) = some (r :: rs) := by
  induction h generalizing n with
  | @one v s hv =>
    obtain ⟨n, rfl⟩ : ∃ m, n = m + 1 := ⟨n - 1, by omega⟩
    have hends : Ends t := by
      intro c hc
      rcases ht with ⟨rfl, -⟩ | ⟨w, rfl, -⟩
      · cases hc
      · exact Or.inr (Option.some.inj hc).symm
    rw [readRecords, readField_append hv hends, Option.bind_some]
    rcases ht with ⟨rfl, rfl⟩ | ⟨w, rfl, hw⟩
    · rfl
    · simp only [List.length_append, List.length_cons] at hn
      simp only
      rw [hw n (by omega)]
      rfl
  | @cons v r s s' hv hr ih =>
    obtain ⟨n, rfl⟩ : ∃ m, n = m + 1 := ⟨n - 1, by omega⟩
    have hends : Ends (',' :: (s' ++ t)) := fun c hc => Or.inl (Option.some.inj hc).symm
    simp only [List.length_append, List.length_cons] at hn
    have hrest := ih (n := n) (by rw [List.length_append]; omega)
    rw [List.append_assoc, List.cons_append, readRecords, readField_append hv hends,
      Option.bind_some]
    simp only
    rw [hrest]
    rfl

theorem IsFile.read (h : IsFile rs s) {n : ℕ} (hn : s.length < n) :
    (if s = [] then some [] else readRecords n s) = some rs := by
  induction h generalizing n with
  | nil => rfl
  | @last r s hr hs =>
    rw [if_neg hs]
    have hread : readRecords n (s ++ []) = some [r] :=
      readRecords_append hr (by rw [List.append_nil]; exact hn) (Or.inl ⟨rfl, rfl⟩)
    rwa [List.append_nil] at hread
  | @cons r rs s t hr hf ih =>
    rw [if_neg (by simp)]
    exact readRecords_append hr hn (Or.inr ⟨t, rfl, fun n hn => ih hn⟩)

/-- `readFile` reads the files, and nothing else. -/
theorem readFile_eq_some : readFile s = some rs ↔ IsFile rs s := by
  constructor
  · intro h
    rw [readFile] at h
    by_cases hs : s = []
    · rw [if_pos hs] at h
      cases h
      rw [hs]
      exact .nil
    · rw [if_neg hs] at h
      obtain ⟨r, rs', t, u, rfl, rfl, hr, hu⟩ := isRecord_of_readRecords h
      exact hr.isFile hu hs
  · intro h
    exact h.read (Nat.lt_succ_self _)

end Csv
