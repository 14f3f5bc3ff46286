import EraseMe.Library.Scan

/-!
# Character data of XML

`charData` undoes the references of a piece of text and the line ends that XML normalizes.
`stringArray` reads the strings of the array that follows a key, as in a property list; comments
and marked sections between them are not read.
-/

namespace Xml

open Scan

/-- The characters of XML 1.0. -/
def isChar (c : Char) : Bool :=
  c.toNat = 0x9 ∨ c.toNat = 0xA ∨ c.toNat = 0xD ∨ (0x20 ≤ c.toNat ∧ c.toNat ≤ 0xD7FF) ∨
    (0xE000 ≤ c.toNat ∧ c.toNat ≤ 0xFFFD) ∨ (0x10000 ≤ c.toNat ∧ c.toNat ≤ 0x10FFFF)

/-- The character a number refers to. -/
def numbered (base : ℕ) (ds : List Char) : Option Char :=
  if ds ≠ [] ∧ ds.all (fun d => digitValue d < base) then
    let n := numeral base ds
    if n.isValidChar ∧ isChar (Char.ofNat n) then some (Char.ofNat n) else none
  else none

/-- The character of a reference, from its name. -/
def named (name : List Char) : Option Char :=
  if name = "amp".toList then some '&'
  else if name = "lt".toList then some '<'
  else if name = "gt".toList then some '>'
  else if name = "quot".toList then some '"'
  else if name = "apos".toList then some '\''
  else match name with
    | '#' :: 'x' :: ds => numbered 16 ds
    | '#' :: ds => numbered 10 ds
    | _ => none

/-- The reference after an ampersand: its character and how many characters it takes. -/
def reference (s : List Char) : Option (Char × ℕ) :=
  let name := s.takeWhile (· ≠ ';')
  if ';' ∈ s then (named name).map (·, name.length + 1) else none

/-- The rule of text. -/
def rule (_ : Unit) (c : Char) (s : List Char) : Rule Unit Char :=
  if c = '<' then .refuse
  else if c = '&' then
    match reference s with
    | some (d, n) => .put [d] n ()
    | none => .refuse
  else if c = '\r' then
    if s.head? = some '\n' then .put ['\n'] 1 () else .put ['\n'] 0 ()
  else if c = ']' ∧ [']', '>'].isPrefixOf s then .refuse
  else if isChar c then .copy ()
  else .refuse

/-- A character that is put stands for one. -/
theorem weight_id (c : Char) : (fun _ : Char => 1) (id c) = 1 := rfl

/-- The scanner of text. -/
def scanner : Scanner Unit Char Char where
  rule := rule
  accept _ := true
  lift := id
  weight _ := 1
  weight_lift := weight_id

/-- The text that a piece of character data stands for. -/
def charData (s : List Char) : Option (List Char) := scanner.scan 0 () s

def isSpace (c : Char) : Bool := c = ' ' ∨ c = '\t' ∨ c = '\n' ∨ c = '\r'

def skipSpace (s : List Char) : List Char := s.dropWhile isSpace

/-- What follows a token at the start. -/
def strip (token s : List Char) : Option (List Char) :=
  if token.isPrefixOf s then some (s.drop token.length) else none

/-- What follows the first occurrence of a token. -/
def after (token : List Char) : List Char → Option (List Char)
  | [] => none
  | c :: s =>
      if token.isPrefixOf (c :: s) then some ((c :: s).drop token.length) else after token s

def arrayTag : List Char := "<array>".toList

def arrayEndTag : List Char := "</array>".toList

def stringTag : List Char := "<string>".toList

def stringEndTag : List Char := "</string>".toList

/-- The strings up to the end of an array. -/
def strings : ℕ → List Char → Option (List (List Char))
  | 0, _ => none
  | fuel + 1, s =>
      match strip arrayEndTag (skipSpace s) with
      | some _ => some []
      | none => do
          let s ← strip stringTag (skipSpace s)
          let x ← charData (s.takeWhile (· ≠ '<'))
          let s ← strip stringEndTag (s.dropWhile (· ≠ '<'))
          let xs ← strings fuel s
          some (x :: xs)

/-- The strings of the array after a key. -/
def stringArray (key doc : List Char) : Option (List (List Char)) := do
  let s ← after key doc
  let s ← strip arrayTag (skipSpace s)
  strings s.length s

/-- A text that is its own character data. -/
structure Literal (s : List Char) : Prop where
  char : ∀ c ∈ s, isChar c = true ∧ c ≠ '<' ∧ c ≠ '&' ∧ c ≠ '\r'
  close : ∀ u v, s ≠ u ++ ']' :: ']' :: '>' :: v

theorem reference_pos {s : List Char} {c : Char} {n : ℕ} (h : reference s = some (c, n)) :
    1 ≤ n := by
  unfold reference at h
  dsimp only at h
  split_ifs at h
  obtain ⟨d, -, heq⟩ := Option.map_eq_some_iff.1 h
  cases heq
  exact Nat.succ_le_succ (Nat.zero_le _)

theorem shortens : scanner.Shortens := by
  intro q c s out skip next h
  change rule q c s = .put out skip next at h
  have hone : ∀ d : Char, scanner.total [d] = 1 := fun _ => rfl
  have hshorter : ∀ d : Char, 1 ≤ skip → skip ≤ s.length →
      [d] ≠ ((c :: s).take (skip + 1)).map scanner.lift := by
    intro d hpos hskip heq
    have hlen := congrArg List.length heq
    simp only [List.length_map, List.length_take, List.length_cons, List.length_nil] at hlen
    omega
  unfold rule at h
  split_ifs at h with h1 h2 h3 h4
  · split at h
    · next d n href =>
      cases h
      have hpos := reference_pos href
      exact ⟨by rw [hone]; omega, hshorter d hpos⟩
    · cases h
  · cases h
    exact ⟨by rw [hone]; omega, hshorter '\n' le_rfl⟩
  · cases h
    refine ⟨le_rfl, fun _ heq => ?_⟩
    rw [h3] at heq
    simp [show scanner.lift = id from rfl] at heq

theorem rule_stable (c : Char) (s : List Char) (next : Unit)
    (_ : scanner.rule () c s = .copy next) : next = () := rfl

theorem rule_eq_copy {c : Char} {s : List Char} :
    rule () c s = .copy () ↔ (isChar c = true ∧ c ≠ '<' ∧ c ≠ '&' ∧ c ≠ '\r') ∧
      ¬ (c = ']' ∧ [']', '>'].isPrefixOf s = true) := by
  unfold rule
  split_ifs with h1 h2 h3 h4 h5 h6
  · simp [h1]
  · split <;> simp [h2]
  · simp [h3]
  · simp [h3]
  · simp [h5]
  · simp only [h6, h1, h2, h3, h5, ne_eq, not_false_eq_true, and_self]
  · simp [h6]

/-- A path is its own character data exactly when what precedes its literal end is literal. -/
theorem charData_append_iff {s t : List Char} (ht : ∀ c ∈ t, isChar c = true ∧
    c ≠ '<' ∧ c ≠ '&' ∧ c ≠ '\r' ∧ c ≠ ']') :
    charData (s ++ '/' :: t) = some (s ++ '/' :: t) ↔ Literal s := by
  have htail : scanner.Plain () ('/' :: t) := by
    have hplain := plain_append_iff (S := scanner) rule_stable (s := t) (t := []) rfl
    rw [List.append_nil] at hplain
    refine ⟨(), rfl, hplain.2 ?_⟩
    rintro u c v rfl
    obtain ⟨hchar, hlt, hamp, hcr, hclose⟩ := ht c (by simp)
    exact rule_eq_copy.2 ⟨⟨hchar, hlt, hamp, hcr⟩, fun h => hclose h.1⟩
  have hiff := scan_eq_map_iff shortens (q := ()) (s := s ++ '/' :: t)
  rw [show scanner.lift = id from rfl, List.map_id, plain_append_iff rule_stable htail] at hiff
  rw [charData, hiff]
  constructor
  · intro h
    refine ⟨fun c hc => ?_, fun u v huv => ?_⟩
    · obtain ⟨u, v, huv⟩ := List.append_of_mem hc
      exact (rule_eq_copy.1 (h u c v huv)).1
    · refine ((rule_eq_copy (c := ']')).1 (h u ']' _ huv)).2 ⟨rfl, ?_⟩
      simp
  · rintro ⟨hchar, hclose⟩ u c v huv
    refine rule_eq_copy.2 ⟨hchar c (by simp [huv]), ?_⟩
    rintro ⟨rfl, hprefix⟩
    -- the slash that follows is no part of the mark
    match v, hprefix with
    | [], hprefix => simp at hprefix
    | [d], hprefix => simp at hprefix
    | d :: e :: v, hprefix =>
      simp only [List.cons_append, List.isPrefixOf_iff_prefix, List.cons_prefix_cons] at hprefix
      obtain ⟨rfl, rfl, -⟩ := hprefix
      exact hclose u v huv

theorem not_mem_of_charData {p : List Char} (h : charData p = some p) : '<' ∉ p := by
  have hplain := plain_of_scan shortens (q := ()) (s := p)
    (by rw [show scanner.lift = id from rfl, List.map_id]; exact h)
  have happend := plain_append_iff (S := scanner) rule_stable (s := p) (t := []) rfl
  rw [List.append_nil] at happend
  intro hmem
  obtain ⟨u, v, huv⟩ := List.append_of_mem hmem
  have hrule := happend.1 hplain u '<' v huv
  cases hrule

/-- A text before a tag is its own character data, read up to the tag, exactly when it is its own
character data. -/
theorem charData_takeWhile_iff {p s : List Char} :
    charData ((p ++ '<' :: s).takeWhile (· ≠ '<')) = some p ↔ charData p = some p := by
  by_cases hmem : '<' ∈ p
  · refine iff_of_false (fun h => ?_) (fun h => not_mem_of_charData h hmem)
    have hle := total_scan_le shortens h
    have htotal : scanner.total p = p.length := by
      have := total_map_lift (S := scanner) p
      rwa [show scanner.lift = id from rfl, List.map_id] at this
    have hlt : ((p ++ '<' :: s).takeWhile (· ≠ '<')).length < p.length := by
      obtain ⟨u, v, rfl⟩ := List.append_of_mem hmem
      have hprefix : ∀ u v : List Char,
          ((u ++ '<' :: v).takeWhile (· ≠ '<')).length ≤ u.length := by
        intro u v
        induction u with
        | nil => simp
        | cons c u ih =>
          rw [List.cons_append, List.takeWhile_cons]
          split
          · exact Nat.succ_le_succ ih
          · exact Nat.zero_le _
      have := hprefix u (v ++ '<' :: s)
      simp only [List.append_assoc, List.cons_append, List.length_append, List.length_cons] at this ⊢
      omega
    rw [htotal] at hle
    omega
  · have htake : (p ++ '<' :: s).takeWhile (· ≠ '<') = p := by
      rw [List.takeWhile_append_of_pos]
      · simp
      · intro c hc
        simp only [ne_eq, decide_eq_true_eq]
        rintro rfl
        exact hmem hc
    rw [htake]

theorem dropWhile_tag {p s : List Char} (h : '<' ∉ p) :
    (p ++ '<' :: s).dropWhile (· ≠ '<') = '<' :: s := by
  rw [List.dropWhile_append_of_pos]
  · simp
  · intro c hc
    simp only [ne_eq, decide_eq_true_eq]
    rintro rfl
    exact h hc

theorem strip_append (token s : List Char) : strip token (token ++ s) = some s := by
  simp [strip]

theorem skipSpace_append {w s : List Char} (hw : w.all isSpace = true)
    (hs : ∀ c ∈ s.head?, isSpace c = false) : skipSpace (w ++ s) = s := by
  rw [skipSpace, List.dropWhile_append_of_pos (by simpa using hw)]
  cases s with
  | nil => rfl
  | cons c s => rw [List.dropWhile_cons_of_neg (by simpa using hs c rfl)]

/-- The first occurrence of a token is where it stands, when nothing before it looks like one. -/
theorem after_append {token a r : List Char} (htoken : token ≠ [])
    (h : a.tails.all fun u => u = [] ∨ ¬ token.isPrefixOf (u ++ token)) :
    after token (a ++ (token ++ r)) = some r := by
  induction a with
  | nil =>
    cases token with
    | nil => exact absurd rfl htoken
    | cons c token =>
      rw [List.nil_append, List.cons_append, after, ← List.cons_append,
        if_pos (by simp), List.drop_left]
  | cons c a ih =>
    simp only [List.tails, List.all_cons, Bool.and_eq_true, decide_eq_true_eq] at h
    obtain ⟨hnil | hprefix, hrest⟩ := h
    · cases hnil
    · have hnot : ¬ token.isPrefixOf (c :: (a ++ (token ++ r))) = true := by
        intro hp
        apply hprefix
        rw [List.isPrefixOf_iff_prefix] at hp ⊢
        have hassoc : c :: (a ++ (token ++ r)) = (c :: a ++ token) ++ r := by simp
        rw [hassoc] at hp
        exact List.prefix_of_prefix_length_le hp (List.prefix_append _ _)
          (by rw [List.length_append]; omega)
      rw [List.cons_append, after, if_neg hnot, ih hrest]

theorem tag_not_space {tag s : List Char} (h : tag.head? = some '<') :
    ∀ c ∈ (tag ++ s).head?, isSpace c = false := by
  intro c hc
  cases tag with
  | nil => cases h
  | cons d tag =>
    cases h
    cases hc
    rfl

section Strings

variable {w p s : List Char} {fuel : ℕ} (hw : w.all isSpace = true)

include hw

/-- One string of an array. -/
theorem strings_append :
    strings (fuel + 1) (w ++ (stringTag ++ (p ++ (stringEndTag ++ s)))) = (do
      let x ← charData ((p ++ (stringEndTag ++ s)).takeWhile (· ≠ '<'))
      let s ← strip stringEndTag ((p ++ (stringEndTag ++ s)).dropWhile (· ≠ '<'))
      let xs ← strings fuel s
      some (x :: xs)) := by
  have hskip : skipSpace (w ++ (stringTag ++ (p ++ (stringEndTag ++ s)))) =
      stringTag ++ (p ++ (stringEndTag ++ s)) :=
    skipSpace_append hw (tag_not_space rfl)
  have hend : strip arrayEndTag (stringTag ++ (p ++ (stringEndTag ++ s))) = none := rfl
  simp only [strings, hskip, hend, strip_append, Option.bind_eq_bind, Option.bind_some]

theorem strings_literal (hp : charData p = some p) :
    strings (fuel + 1) (w ++ (stringTag ++ (p ++ (stringEndTag ++ s)))) =
      (strings fuel s).map (p :: ·) := by
  have htag : stringEndTag ++ s = '<' :: ("/string>".toList ++ s) := rfl
  have hread : charData ((p ++ (stringEndTag ++ s)).takeWhile (· ≠ '<')) = some p := by
    rw [htag]
    exact charData_takeWhile_iff.2 hp
  have hdrop : (p ++ (stringEndTag ++ s)).dropWhile (· ≠ '<') = stringEndTag ++ s := by
    rw [htag]
    exact dropWhile_tag (not_mem_of_charData hp)
  rw [strings_append hw, hread, hdrop, strip_append]
  simp only [Option.bind_eq_bind, Option.bind_some, Option.map_eq_bind]
  rfl

/-- The last string of an array comes back as it is exactly when it is its own character data. -/
theorem strings_last_iff {w' : List Char} (hw' : w'.all isSpace = true) :
    strings (fuel + 2) (w ++ (stringTag ++ (p ++ (stringEndTag ++ (w' ++ (arrayEndTag ++ s)))))) =
      some [p] ↔ charData p = some p := by
  constructor
  · intro h
    rw [strings_append hw, Option.bind_eq_bind, Option.bind_eq_some_iff] at h
    obtain ⟨x, hx, h⟩ := h
    rw [Option.bind_eq_bind, Option.bind_eq_some_iff] at h
    obtain ⟨r, -, h⟩ := h
    rw [Option.bind_eq_some_iff] at h
    obtain ⟨xs, -, h⟩ := h
    simp only [Option.some.injEq, List.cons.injEq] at h
    rw [h.1] at hx
    exact charData_takeWhile_iff.1 hx
  · intro h
    rw [strings_literal hw h]
    have hskip : skipSpace (w' ++ (arrayEndTag ++ s)) = arrayEndTag ++ s :=
      skipSpace_append hw' (tag_not_space rfl)
    simp only [strings, hskip, strip_append, Option.map_some]

end Strings

/-- The second of two strings after a key comes back as it is exactly when it is its own character
data. -/
theorem stringArray_pair_iff {key a b p r w₁ w₂ w₃ w₄ : List Char} (hkey : key ≠ [])
    (ha : a.tails.all fun u => u = [] ∨ ¬ key.isPrefixOf (u ++ key))
    (hw₁ : w₁.all isSpace = true) (hw₂ : w₂.all isSpace = true) (hw₃ : w₃.all isSpace = true)
    (hw₄ : w₄.all isSpace = true) (hb : charData b = some b) :
    stringArray key (a ++ (key ++ (w₁ ++ (arrayTag ++ (w₂ ++ (stringTag ++ (b ++ (stringEndTag ++
      (w₃ ++ (stringTag ++ (p ++ (stringEndTag ++ (w₄ ++ (arrayEndTag ++ r)))))))))))))) =
        some [b, p] ↔ charData p = some p := by
  have hskip : ∀ s, skipSpace (w₁ ++ (arrayTag ++ s)) = arrayTag ++ s := fun s =>
    skipSpace_append hw₁ (tag_not_space rfl)
  rw [stringArray, after_append hkey ha, Option.bind_eq_bind, Option.bind_some, hskip,
    strip_append, Option.bind_some]
  set s := stringTag ++ (b ++ (stringEndTag ++
      (w₃ ++ (stringTag ++ (p ++ (stringEndTag ++ (w₄ ++ (arrayEndTag ++ r)))))))) with hs
  obtain ⟨fuel, hfuel⟩ : ∃ fuel, (w₂ ++ s).length = fuel + 3 := by
    refine ⟨(w₂ ++ s).length - 3, ?_⟩
    have htag : stringTag.length = 8 := rfl
    simp only [hs, List.length_append, htag]
    omega
  rw [hfuel, hs, strings_literal hw₂ hb]
  simp only [Option.map_eq_some_iff, List.cons.injEq, true_and, exists_eq_right]
  exact strings_last_iff hw₃ hw₄


end Xml
