import EraseMe.Library.Decimal
import Mathlib.Data.List.DropRight

/-!
# Texts

The operations of `str` the program uses, on lists of characters.
-/

namespace Text

open Decimal

instance lawfulBEq : LawfulBEq (List Char) := inferInstance

/-- The white space characters of Unicode. -/
def isWhitespace (c : Char) : Bool :=
  (9 ≤ c.toNat ∧ c.toNat ≤ 13) ∨ c.toNat = 32 ∨ c.toNat = 0x85 ∨ c.toNat = 0xA0 ∨
    c.toNat = 0x1680 ∨ (0x2000 ≤ c.toNat ∧ c.toNat ≤ 0x200A) ∨ c.toNat = 0x2028 ∨
    c.toNat = 0x2029 ∨ c.toNat = 0x202F ∨ c.toNat = 0x205F ∨ c.toNat = 0x3000

/-- Without blanks in front. -/
def trimStart (s : List Char) : List Char := s.dropWhile isWhitespace

/-- Without blanks at both ends. -/
def trim (s : List Char) : List Char := (trimStart (trimStart s).reverse).reverse

/-- `char::is_control`. -/
def isControl (c : Char) : Bool := c.toNat < 32 ∨ (127 ≤ c.toNat ∧ c.toNat < 160)

/-- A letter of ASCII. -/
def isAsciiAlphabetic (c : Char) : Bool := c.isUpper || c.isLower

/-- Alike but for case. -/
def eqIgnoreAsciiCase (a b : List Char) : Bool := a.map Char.toLower = b.map Char.toLower

/-- The text before and after the first separator. -/
def splitOnce (sep : Char) (s : List Char) : Option (List Char × List Char) :=
  if sep ∈ s then some (s.takeWhile (· != sep), (s.dropWhile (· != sep)).drop 1) else none

/-- The text before and after the last separator. -/
def rsplitOnce (sep : Char) (s : List Char) : Option (List Char × List Char) :=
  (splitOnce sep s.reverse).map fun (tail, head) => (head.reverse, tail.reverse)

/-- The parts between the separators. -/
def splitOn (sep : Char) : List Char → List (List Char)
  | [] => [[]]
  | c :: s =>
      if c = sep then [] :: splitOn sep s
      else match splitOn sep s with
        | [] => [[c]]
        | part :: parts => (c :: part) :: parts

@[simp] theorem splitOn_nil (sep : Char) : splitOn sep [] = [[]] := rfl

theorem splitOn_cons (sep c : Char) (s : List Char) :
    splitOn sep (c :: s) = if c = sep then [] :: splitOn sep s
      else match splitOn sep s with
        | [] => [[c]]
        | part :: parts => (c :: part) :: parts := rfl

/-- The words between blanks. -/
def splitWhitespace (s : List Char) : List (List Char) :=
  (splitOn ' ' (s.map fun c => if isWhitespace c then ' ' else c)).filter (· ≠ [])

/-- Replace every occurrence, from left to right; `fuel` is the length of the text. -/
def replaceAux (pattern marker : List Char) : ℕ → List Char → List Char
  | 0, s => s
  | _, [] => []
  | fuel + 1, c :: s =>
      if pattern.isPrefixOf (c :: s) then
        marker ++ replaceAux pattern marker fuel ((c :: s).drop pattern.length)
      else c :: replaceAux pattern marker fuel s

/-- `str::replace` for a pattern that is not empty. -/
def replace (s pattern marker : String) : String :=
  String.ofList (replaceAux pattern.toList marker.toList s.toList.length s.toList)

/-- `str::parse` of an unsigned number. -/
def parseUnsigned (max : ℕ) (s : List Char) : Option ℕ :=
  let digits := if s.head? = some '+' then s.drop 1 else s
  if digits ≠ [] ∧ digits.all Char.isDigit then
    let n := digits.foldl (fun n c => n * 10 + value c) 0
    if n ≤ max then some n else none
  else none

/-- `str::parse` of a signed 32-bit number. -/
def parseSigned (s : List Char) : Option ℤ :=
  if s.head? = some '-' then
    if s[1]? = some '+' then none
    else (parseUnsigned 2147483648 (s.drop 1)).map fun n => -(n : ℤ)
  else (parseUnsigned 2147483647 s).map fun n => (n : ℤ)

/-- A number as digits to a base, with leading zeros. -/
def padded (base width n : ℕ) : List Char :=
  let digits := Nat.toDigits base n
  List.replicate (width - digits.length) '0' ++ digits

/-- A return or a line feed. -/
def isLineEnd (c : Char) : Bool := c = '\r' ∨ c = '\n'

/-- Without line ends at the end. -/
def trimLineEnd (s : List Char) : List Char := (s.reverse.dropWhile isLineEnd).reverse

/-- `str::lines`. -/
def lines (s : List Char) : List (List Char) :=
  let parts := splitOn '\n' s
  let parts := if parts.getLast? = some [] then parts.dropLast else parts
  parts.map fun part => if part.getLast? = some '\r' then part.dropLast else part

/-- Where a pattern occurs first. -/
def find {α : Type} [DecidableEq α] (pattern : List α) : List α → Option ℕ
  | [] => if pattern = [] then some 0 else none
  | c :: s => if pattern.isPrefixOf (c :: s) then some 0 else (find pattern s).map (· + 1)

/-- The pattern is in the text. -/
def contains (pattern s : List Char) : Bool := (find pattern s).isSome

/-- What follows the first occurrence of a pattern. -/
def after {α : Type} [DecidableEq α] (pattern s : List α) : Option (List α) :=
  (find pattern s).map fun i => s.drop (i + pattern.length)

/-- The text after a prefix. -/
def stripPrefix (pattern s : List Char) : Option (List Char) :=
  if pattern.isPrefixOf s then some (s.drop pattern.length) else none

/-! ### The debug form -/

def hexDigit (n : ℕ) : Char := if n < 10 then Char.ofNat (48 + n) else Char.ofNat (87 + n)

/-- A character as the debug form of a text shows it; characters from U+0100 on count as printable. -/
def debugChar (c : Char) : List Char :=
  if c = '"' then ['\\', '"']
  else if c = '\\' then ['\\', '\\']
  else if c = '\n' then ['\\', 'n']
  else if c = '\r' then ['\\', 'r']
  else if c = '\t' then ['\\', 't']
  else if c.toNat = 0 then ['\\', '0']
  else if c.toNat < 16 then ['\\', 'u', '\x7b', hexDigit c.toNat, '\x7d']
  else if c.toNat < 32 ∨ 127 ≤ c.toNat ∧ c.toNat ≤ 160 ∨ c.toNat = 173 then
    ['\\', 'u', '\x7b', hexDigit (c.toNat / 16), hexDigit (c.toNat % 16), '\x7d']
  else [c]

/-- A text in quotes. -/
def debugStr (s : String) : String := String.ofList ('"' :: s.toList.flatMap debugChar ++ ['"'])

/-! ### Trimming -/

theorem isWhitespace_of_isDigit {c : Char} (h : c.isDigit = true) : isWhitespace c = false := by
  rw [isDigit_iff] at h
  simp only [isWhitespace, decide_eq_false_iff_not]
  omega

theorem trimStart_cons {c : Char} {s : List Char} (h : isWhitespace c = false) :
    trimStart (c :: s) = c :: s := by
  simp [trimStart, h]

/-- A text that starts and ends with other characters than white space is not trimmed. -/
theorem trim_eq_self {c d : Char} {s : List Char} (hc : isWhitespace c = false)
    (hd : isWhitespace d = false) (hlast : (c :: s).getLast? = some d) :
    trim (c :: s) = c :: s := by
  obtain ⟨r, hr⟩ : ∃ r, (c :: s).reverse = d :: r := by
    rw [← List.head?_reverse] at hlast
    exact List.head?_eq_some_iff.1 hlast
  rw [trim, trimStart_cons hc, hr, trimStart_cons hd, ← hr, List.reverse_reverse]

section Ends

variable {α : Type} {p : α → Bool} {c : α}

/-- What comes before an element that stays is not cut off at the end. -/
theorem rdropWhile_append_cons (hc : p c = false) (a s : List α) :
    (a ++ c :: s).rdropWhile p = a ++ c :: s.rdropWhile p := by
  have hsplit : (a ++ c :: s).reverse = s.reverse ++ c :: a.reverse := by simp
  have hstop : (s.reverse ++ c :: a.reverse).dropWhile p =
      s.reverse.dropWhile p ++ c :: a.reverse := by
    rw [List.dropWhile_append]
    split_ifs with hall
    · rw [List.isEmpty_iff.1 hall]
      simp [hc]
    · rfl
  rw [List.rdropWhile, List.rdropWhile, hsplit, hstop]
  simp

theorem rdropWhile_of_forall {s : List α} (h : ∀ c ∈ s, p c = true) : s.rdropWhile p = [] :=
  List.rdropWhile_eq_nil_iff.2 h

/-- The two ends are cut off in any order. -/
theorem dropWhile_rdropWhile (p : α → Bool) (s : List α) :
    (s.rdropWhile p).dropWhile p = (s.dropWhile p).rdropWhile p := by
  induction s with
  | nil => rfl
  | cons c s ih =>
    cases hc : p c with
    | false =>
      have hend : (c :: s).rdropWhile p = c :: s.rdropWhile p := rdropWhile_append_cons hc [] s
      rw [hend, List.dropWhile_cons_of_neg (by simp [hc]), List.dropWhile_cons_of_neg (by simp [hc]),
        hend]
    | true =>
      rw [List.dropWhile_cons_of_pos hc, ← ih]
      by_cases hall : ∀ d ∈ s, p d = true
      · have hall' : ∀ d ∈ c :: s, p d = true := List.forall_mem_cons.2 ⟨hc, hall⟩
        rw [rdropWhile_of_forall hall, rdropWhile_of_forall hall']
      · push Not at hall
        obtain ⟨d, hd, hne⟩ := hall
        obtain ⟨a, r, rfl⟩ := List.append_of_mem hd
        have hd' : p d = false := by simpa using hne
        rw [rdropWhile_append_cons hd', ← List.cons_append, rdropWhile_append_cons hd',
          List.cons_append, List.dropWhile_cons_of_pos hc]

end Ends

/-- Without blanks at the end. -/
def trimEnd (s : List Char) : List Char := s.rdropWhile isWhitespace

theorem trim_eq (s : List Char) : trim s = trimEnd (trimStart s) := rfl

theorem trimStart_append {blank : List Char} (h : ∀ c ∈ blank, isWhitespace c = true)
    (s : List Char) : trimStart (blank ++ s) = trimStart s := List.dropWhile_append_of_pos h

theorem trim_length_le (s : List Char) : (trim s).length ≤ s.length :=
  (List.rdropWhile_prefix isWhitespace (trimStart s)).length_le.trans
    (List.dropWhile_suffix isWhitespace).length_le

theorem trimEnd_append_cons {c : Char} (hc : isWhitespace c = false) (a s : List Char) :
    trimEnd (a ++ c :: s) = a ++ c :: trimEnd s := rdropWhile_append_cons hc a s

theorem trimStart_trimEnd (s : List Char) : trimStart (trimEnd s) = trim s :=
  dropWhile_rdropWhile isWhitespace s

theorem trim_trimEnd (s : List Char) : trim (trimEnd s) = trim s := by
  rw [← trimStart_trimEnd (trimEnd s), trimEnd, trimEnd, List.rdropWhile_idempotent, ← trimEnd,
    trimStart_trimEnd]

theorem trim_trim (s : List Char) : trim (trim s) = trim s := by
  have htwice : trimStart (trimStart s) = trimStart s := List.dropWhile_idempotent _ _
  rw [trim_eq s, trim_trimEnd, trim_eq, htwice]

theorem trim_append_of_blank {blank : List Char} (h : ∀ c ∈ blank, isWhitespace c = true)
    (s : List Char) : trim (blank ++ s) = trim s := by
  rw [trim_eq, trimStart_append h, ← trim_eq]

end Text
