import EraseMe.Library.Json
import EraseMe.Library.Octets

/-!
# JSON texts

`Text v s` says that the octets `s` are a JSON text of the value `v` as RFC 8259 has it, without
blanks around it; `Items` and `Members` are the texts between the brackets of an array and an
object.  The characters of a string are those of `CharsText`, escaped or not.  Of the numbers only
integers within 64 bits are described.

`compact` and `pretty` print values, and `read` reads their texts.  Printed values have texts
(`text_compact`, `text_pretty`), and a text is read as its value (`read_document`).
-/

namespace Json

abbrev Octets := List UInt8

/-! ### Blanks and digits -/

/-- A blank of JSON. -/
def isBlank (b : UInt8) : Bool := b = 32 ∨ b = 10 ∨ b = 13 ∨ b = 9

/-- Insignificant white space. -/
def Blank (s : Octets) : Prop := ∀ b ∈ s, isBlank b = true

/-- Without blanks in front. -/
def skipBlank (s : Octets) : Octets := s.dropWhile isBlank

theorem blank_nil : Blank [] := fun _ h => absurd h List.not_mem_nil

/-- Blanks before something else are skipped. -/
theorem skipBlank_append {w s : Octets} (hw : Blank w) (hs : ∀ b ∈ s.head?, isBlank b = false) :
    skipBlank (w ++ s) = s := by
  rw [skipBlank, List.dropWhile_append_of_pos hw]
  cases s with
  | nil => rfl
  | cons b s => rw [List.dropWhile_cons_of_neg (by simp [hs b rfl])]

/-- The value of a digit. -/
def hexValue (b : UInt8) : Option ℕ :=
  if 48 ≤ b ∧ b ≤ 57 then some (b.toNat - 48)
  else if 97 ≤ b ∧ b ≤ 102 then some (b.toNat - 87)
  else if 65 ≤ b ∧ b ≤ 70 then some (b.toNat - 55)
  else none

/-- The number written by the four hexadecimal digits at the start. -/
def hexQuad : Octets → Option ℕ
  | a :: b :: c :: d :: _ => do
      let a ← hexValue a
      let b ← hexValue b
      let c ← hexValue c
      let d ← hexValue d
      some (((a * 16 + b) * 16 + c) * 16 + d)
  | _ => none

/-! ### The grammar -/

/-- The escapes of one letter. -/
def shortEscape (e : UInt8) : Option Char :=
  if e = 34 then some '"'
  else if e = 92 then some '\\'
  else if e = 47 then some '/'
  else if e = 98 then some (Char.ofNat 8)
  else if e = 102 then some (Char.ofNat 12)
  else if e = 110 then some '\n'
  else if e = 114 then some '\r'
  else if e = 116 then some '\t'
  else none

/-- One character inside a string. -/
inductive CharText : Char → Octets → Prop
  | plain {c : Char} (hcontrol : 32 ≤ c.toNat) (hquote : c ≠ '"') (hbackslash : c ≠ '\\') :
      CharText c (String.utf8EncodeChar c)
  | short {c : Char} {e : UInt8} (h : shortEscape e = some c) : CharText c [92, e]
  | unit {c : Char} {a b d e : UInt8} (h : hexQuad [a, b, d, e] = some c.toNat) :
      CharText c [92, 117, a, b, d, e]
  | pair {c : Char} {a b d e a' b' d' e' : UInt8} {high low : ℕ}
      (hhigh : hexQuad [a, b, d, e] = some high) (hlow : hexQuad [a', b', d', e'] = some low)
      (hc : 65536 ≤ c.toNat) (hhigh' : high = 55296 + (c.toNat - 65536) / 1024)
      (hlow' : low = 56320 + (c.toNat - 65536) % 1024) :
      CharText c [92, 117, a, b, d, e, 92, 117, a', b', d', e']

/-- The characters of a string. -/
inductive CharsText : List Char → Octets → Prop
  | nil : CharsText [] []
  | cons {c : Char} {s : Octets} {cs : List Char} {rest : Octets} (h : CharText c s)
      (hrest : CharsText cs rest) : CharsText (c :: cs) (s ++ rest)

/-- A text as a string. -/
def StringText (text : String) (s : Octets) : Prop :=
  ∃ body, CharsText text.toList body ∧ s = 34 :: (body ++ [34])

/-- The integers that are not read as floating-point numbers. -/
def Machine (n : ℤ) : Prop := i64Min ≤ n ∧ n < 18446744073709551616

/-- A natural number. -/
def digits (n : ℕ) : Octets := (Nat.toDigits 10 n).map Utf8.octet

/-- An integer. -/
def intText (n : ℤ) : Octets := if n < 0 then 45 :: digits n.natAbs else digits n.natAbs

mutual

/-- The texts of a value. -/
def Text : Json → Octets → Prop
  | .null, s => s = Utf8.encode "null"
  | .bool b, s => s = Utf8.encode (if b then "true" else "false")
  | .int n, s => Machine n ∧ s = intText n
  | .float _ _, _ => False
  | .string text, s => StringText text s
  | .array items, s => ∃ inner, Items items inner ∧ s = 91 :: (inner ++ [93])
  | .object fields, s => ∃ inner, Members fields inner ∧ s = 123 :: (inner ++ [125])

/-- The texts between the brackets of an array. -/
def Items : List Json → Octets → Prop
  | [], s => Blank s
  | v :: items, s => ∃ w text w', Blank w ∧ Text v text ∧ Blank w' ∧
      (items = [] ∧ s = w ++ (text ++ w') ∨
        items ≠ [] ∧ ∃ rest, Items items rest ∧ s = w ++ (text ++ (w' ++ 44 :: rest)))

/-- The texts between the braces of an object. -/
def Members : List (String × Json) → Octets → Prop
  | [], s => Blank s
  | (key, v) :: fields, s => ∃ w k w₁ w₂ text w', Blank w ∧ StringText key k ∧ Blank w₁ ∧
      Blank w₂ ∧ Text v text ∧ Blank w' ∧
      (fields = [] ∧ s = w ++ (k ++ (w₁ ++ 58 :: (w₂ ++ (text ++ w')))) ∨
        fields ≠ [] ∧ ∃ rest, Members fields rest ∧
          s = w ++ (k ++ (w₁ ++ 58 :: (w₂ ++ (text ++ (w' ++ 44 :: rest))))))

end

/-- A text with blanks around it. -/
def Document (v : Json) (s : Octets) : Prop :=
  ∃ w text w', Blank w ∧ Text v text ∧ Blank w' ∧ s = w ++ (text ++ w')

/-! ### The characters of a string -/

/-- The first octet of a character that stands for itself. -/
theorem encode_plain {c : Char} (hcontrol : 32 ≤ c.toNat) (hquote : c ≠ '"')
    (hbackslash : c ≠ '\\') :
    ∃ b tail, String.utf8EncodeChar c = b :: tail ∧ 32 ≤ b ∧ b ≠ 34 ∧ b ≠ 92 ∧
      (b < 128 → tail = []) := by
  have hle (x y : UInt8) : x ≤ y ↔ x.toNat ≤ y.toNat := UInt8.le_iff_toNat_le
  have hlt (x y : UInt8) : x < y ↔ x.toNat < y.toNat := UInt8.lt_iff_toNat_lt
  have hof (n : ℕ) : (UInt8.ofNat n).toNat = n % 256 := UInt8.toNat_ofNat'
  have h34 : c.toNat ≠ 34 := fun h => hquote (Char.toNat_inj.1 h)
  have h92 : c.toNat ≠ 92 := fun h => hbackslash (Char.toNat_inj.1 h)
  -- the first of several octets is none of the marks
  have hlong (n : ℕ) (tail : Octets) (h : 192 ≤ n ∧ n < 256) :
      ∃ b tail', UInt8.ofNat n :: tail = b :: tail' ∧ 32 ≤ b ∧ b ≠ 34 ∧ b ≠ 92 ∧
        (b < 128 → tail' = []) := by
    refine ⟨_, _, rfl, ?_, ?_, ?_, fun hb => ?_⟩
    · simp only [hle, hof, UInt8.reduceToNat]
      omega
    · simp only [ne_eq, ← UInt8.toNat_inj, hof, UInt8.reduceToNat]
      omega
    · simp only [ne_eq, ← UInt8.toNat_inj, hof, UInt8.reduceToNat]
      omega
    · simp only [hlt, hof, UInt8.reduceToNat] at hb
      omega
  unfold String.utf8EncodeChar
  change 32 ≤ c.val.toNat at hcontrol
  change c.val.toNat ≠ 34 at h34
  change c.val.toNat ≠ 92 at h92
  generalize c.val.toNat = v at hcontrol h34 h92
  simp only
  split_ifs with h1 h2 h3
  · refine ⟨_, [], rfl, ?_, ?_, ?_, fun _ => rfl⟩
    · simp only [hle, hof, UInt8.reduceToNat]
      omega
    · simp only [ne_eq, ← UInt8.toNat_inj, hof, UInt8.reduceToNat]
      omega
    · simp only [ne_eq, ← UInt8.toNat_inj, hof, UInt8.reduceToNat]
      omega
  · exact hlong _ _ (by omega)
  · exact hlong _ _ (by omega)
  · exact hlong _ _ (by omega)

/-! ### Printing -/

/-- A character of a printed string. -/
def printChar (c : Char) : Octets :=
  if c = '"' then [92, 34]
  else if c = '\\' then [92, 92]
  else if c.toNat = 8 then [92, 98]
  else if c.toNat = 12 then [92, 102]
  else if c = '\n' then [92, 110]
  else if c = '\r' then [92, 114]
  else if c = '\t' then [92, 116]
  else if c.toNat < 32 then
    [92, 117, 48, 48, Utf8.octet (Nat.digitChar (c.toNat / 16)),
      Utf8.octet (Nat.digitChar (c.toNat % 16))]
  else String.utf8EncodeChar c

def printChars (cs : List Char) : Octets := cs.flatMap printChar

/-- A text in quotes. -/
def printString (text : String) : Octets := 34 :: (printChars text.toList ++ [34])

mutual

/-- Print with a line break and a margin for each level before every item, and with blanks after
colons.  Nothing stands for a number with a fraction. -/
def print (margin : ℕ → Octets) (space : Octets) : ℕ → Json → Octets
  | _, .null => Utf8.encode "null"
  | _, .bool b => Utf8.encode (if b then "true" else "false")
  | _, .int n => intText n
  | _, .float _ _ => []
  | _, .string text => printString text
  | _, .array [] => [91, 93]
  | level, .array (v :: items) =>
      91 :: (printItems margin space (level + 1) (v :: items) ++ (margin level ++ [93]))
  | _, .object [] => [123, 125]
  | level, .object (f :: fields) =>
      123 :: (printMembers margin space (level + 1) (f :: fields) ++ (margin level ++ [125]))

/-- The items on their lines. -/
def printItems (margin : ℕ → Octets) (space : Octets) : ℕ → List Json → Octets
  | _, [] => []
  | level, v :: items =>
      margin level ++ (print margin space level v ++
        if items = [] then [] else 44 :: printItems margin space level items)

/-- The members on their lines. -/
def printMembers (margin : ℕ → Octets) (space : Octets) : ℕ → List (String × Json) → Octets
  | _, [] => []
  | level, (key, v) :: fields =>
      margin level ++ (printString key ++ 58 :: (space ++ (print margin space level v ++
        if fields = [] then [] else 44 :: printMembers margin space level fields)))

end

/-- Without blanks. -/
def compact (v : Json) : Octets := print (fun _ => []) [] 0 v

/-- Every item on a line of its own, two blanks further in than what it is in. -/
def pretty (v : Json) : Octets := print (fun n => 10 :: List.replicate (2 * n) 32) [32] 0 v

mutual

/-- Nothing but integers within 64 bits among the numbers. -/
def Plain : Json → Prop
  | .int n => Machine n
  | .float _ _ => False
  | .array items => PlainItems items
  | .object fields => PlainMembers fields
  | _ => True

/-- The same for items. -/
def PlainItems : List Json → Prop
  | [] => True
  | v :: items => Plain v ∧ PlainItems items

/-- The same for members. -/
def PlainMembers : List (String × Json) → Prop
  | [] => True
  | (_, v) :: fields => Plain v ∧ PlainMembers fields

end

theorem charText_print (c : Char) : CharText c (printChar c) := by
  unfold printChar
  split_ifs with h1 h2 h3 h4 h5 h6 h7 h8
  · exact .short (by rw [h1]; rfl)
  · exact .short (by rw [h2]; rfl)
  · exact .short (by rw [← Char.ofNat_toNat c, h3]; rfl)
  · exact .short (by rw [← Char.ofNat_toNat c, h4]; rfl)
  · exact .short (by rw [h5]; rfl)
  · exact .short (by rw [h6]; rfl)
  · exact .short (by rw [h7]; rfl)
  · have hall : ∀ n < 32, hexQuad [48, 48, Utf8.octet (Nat.digitChar (n / 16)),
        Utf8.octet (Nat.digitChar (n % 16))] = some n := by decide
    exact .unit (hall _ h8)
  · exact .plain (not_lt.1 h8) h1 h2

theorem charsText_print (cs : List Char) : CharsText cs (printChars cs) := by
  induction cs with
  | nil => exact .nil
  | cons c cs ih => exact .cons (charText_print c) ih

theorem stringText_print (text : String) : StringText text (printString text) :=
  ⟨_, charsText_print _, rfl⟩

section Print

variable {margin : ℕ → Octets} {space : Octets}

mutual

theorem text_print (hmargin : ∀ n, Blank (margin n)) (hspace : Blank space) (level : ℕ) :
    ∀ v : Json, Plain v → Text v (print margin space level v)
  | .null, _ => by simp only [Text, print]
  | .bool b, _ => by simp only [Text, print]
  | .int n, h => by
      simp only [Plain] at h
      simp only [Text, print, h, true_and]
  | .float _ _, h => by simp only [Plain] at h
  | .string text, _ => by
      simp only [Text, print]
      exact stringText_print text
  | .array [], _ => by
      simp only [Text, print, Items]
      exact ⟨[], blank_nil, rfl⟩
  | .array (v :: items), h => by
      simp only [Plain] at h
      simp only [Text, print]
      refine ⟨_, items_print hmargin hspace (level + 1) (v :: items) h (by simp)
        (hmargin level), ?_⟩
      rw [List.append_assoc]
  | .object [], _ => by
      simp only [Text, print, Members]
      exact ⟨[], blank_nil, rfl⟩
  | .object (f :: fields), h => by
      simp only [Plain] at h
      simp only [Text, print]
      refine ⟨_, members_print hmargin hspace (level + 1) (f :: fields) h (by simp)
        (hmargin level), ?_⟩
      rw [List.append_assoc]

/-- With the blanks before the closing bracket. -/
theorem items_print (hmargin : ∀ n, Blank (margin n)) (hspace : Blank space) (level : ℕ) :
    ∀ items : List Json, PlainItems items → items ≠ [] → ∀ {w : Octets}, Blank w →
      Items items (printItems margin space level items ++ w)
  | [], _, hne, _, _ => absurd rfl hne
  | [v], h, _, w, hw => by
      simp only [PlainItems] at h
      simp only [Items, printItems]
      refine ⟨margin level, _, w, hmargin level, text_print hmargin hspace level v h.1, hw,
        Or.inl ⟨trivial, ?_⟩⟩
      simp
  | v :: v' :: items, h, _, w, hw => by
      rw [PlainItems] at h
      rw [Items, printItems]
      refine ⟨margin level, _, [], hmargin level, text_print hmargin hspace level v h.1, blank_nil,
        Or.inr ⟨by simp, _, items_print hmargin hspace level (v' :: items) h.2 (by simp) hw, ?_⟩⟩
      simp

theorem members_print (hmargin : ∀ n, Blank (margin n)) (hspace : Blank space) (level : ℕ) :
    ∀ fields : List (String × Json), PlainMembers fields → fields ≠ [] → ∀ {w : Octets}, Blank w →
      Members fields (printMembers margin space level fields ++ w)
  | [], _, hne, _, _ => absurd rfl hne
  | [(key, v)], h, _, w, hw => by
      simp only [PlainMembers] at h
      simp only [Members, printMembers]
      refine ⟨margin level, _, [], space, _, w, hmargin level, stringText_print key, blank_nil,
        hspace, text_print hmargin hspace level v h.1, hw, Or.inl ⟨trivial, ?_⟩⟩
      simp
  | (key, v) :: f :: fields, h, _, w, hw => by
      rw [PlainMembers] at h
      rw [Members, printMembers]
      refine ⟨margin level, _, [], space, _, [], hmargin level, stringText_print key, blank_nil,
        hspace, text_print hmargin hspace level v h.1, blank_nil,
        Or.inr ⟨by simp, _, members_print hmargin hspace level (f :: fields) h.2 (by simp) hw, ?_⟩⟩
      simp

end

end Print

theorem text_compact {v : Json} (h : Plain v) : Text v (compact v) :=
  text_print (fun _ => blank_nil) blank_nil 0 v h

theorem text_pretty {v : Json} (h : Plain v) : Text v (pretty v) := by
  refine text_print (fun n b hb => ?_) (fun b hb => ?_) 0 v h
  · rcases List.mem_cons.1 hb with rfl | hb
    · rfl
    · rw [List.eq_of_mem_replicate hb]
      rfl
  · rw [List.mem_singleton.1 hb]
    rfl

/-! ### Line breaks -/

theorem newline_not_mem_char {c : Char} (h : 32 ≤ c.toNat) : 10 ∉ String.utf8EncodeChar c := by
  have hof (n : ℕ) : (UInt8.ofNat n).toNat = n % 256 := UInt8.toNat_ofNat'
  have h10 : (10 : UInt8).toNat = 10 := rfl
  unfold String.utf8EncodeChar
  change 32 ≤ c.val.toNat at h
  generalize c.val.toNat = v at h
  simp only
  split_ifs <;> simp only [List.mem_cons, List.not_mem_nil, or_false, ← UInt8.toNat_inj, hof, h10]
    <;> omega

theorem newline_not_mem_printChar (c : Char) : 10 ∉ printChar c := by
  unfold printChar
  split_ifs with h1 h2 h3 h4 h5 h6 h7 h8
  · decide
  · decide
  · decide
  · decide
  · decide
  · decide
  · decide
  · have hall : ∀ n < 32, (10 : UInt8) ∉ [92, 117, 48, 48, Utf8.octet (Nat.digitChar (n / 16)),
        Utf8.octet (Nat.digitChar (n % 16))] := by decide
    exact hall _ h8
  · exact newline_not_mem_char (not_lt.1 h8)

theorem newline_not_mem_printString (text : String) : 10 ∉ printString text := by
  have hchars : 10 ∉ printChars text.toList := by
    intro h
    obtain ⟨c, -, hc⟩ := List.mem_flatMap.1 h
    exact newline_not_mem_printChar c hc
  simp [printString, hchars]

theorem digits_range {n : ℕ} {b : UInt8} (h : b ∈ digits n) : 48 ≤ b ∧ b ≤ 57 := by
  obtain ⟨c, hc, rfl⟩ := List.mem_map.1 h
  have hdigit := Nat.isDigit_of_mem_toDigits (by decide) (by decide) hc
  have hnat : 48 ≤ c.toNat ∧ c.toNat ≤ 57 := by
    simp only [Char.isDigit, Bool.and_eq_true, decide_eq_true_eq, UInt32.le_iff_toNat_le] at hdigit
    exact hdigit
  have hof : (Utf8.octet c).toNat = c.toNat := by
    rw [Utf8.octet, UInt8.toNat_ofNat']
    omega
  rw [UInt8.le_iff_toNat_le, UInt8.le_iff_toNat_le, hof]
  exact hnat

theorem newline_not_mem_intText (n : ℤ) : 10 ∉ intText n := by
  have hdigits (m : ℕ) : 10 ∉ digits m := fun h => absurd (digits_range h) (by decide)
  unfold intText
  split_ifs
  · simp [hdigits]
  · exact hdigits _

mutual

theorem newline_not_mem_print (level : ℕ) :
    ∀ v : Json, 10 ∉ print (fun _ => []) [] level v
  | .null => by
      rw [print]
      decide
  | .bool b => by
      rw [print]
      cases b <;> decide
  | .int n => by
      rw [print]
      exact newline_not_mem_intText n
  | .float _ _ => by
      rw [print]
      exact List.not_mem_nil
  | .string text => by
      rw [print]
      exact newline_not_mem_printString text
  | .array [] => by
      rw [print]
      decide
  | .array (v :: items) => by
      rw [print]
      simp [newline_not_mem_printItems (level + 1) (v :: items)]
  | .object [] => by
      rw [print]
      decide
  | .object (f :: fields) => by
      rw [print]
      simp [newline_not_mem_printMembers (level + 1) (f :: fields)]

theorem newline_not_mem_printItems (level : ℕ) :
    ∀ items : List Json, 10 ∉ printItems (fun _ => []) [] level items
  | [] => by simp [printItems]
  | v :: items => by
      rw [printItems]
      have hv := newline_not_mem_print level v
      have hitems := newline_not_mem_printItems level items
      split_ifs
      · simp [hv]
      · simp [hv, hitems]

theorem newline_not_mem_printMembers (level : ℕ) :
    ∀ fields : List (String × Json), 10 ∉ printMembers (fun _ => []) [] level fields
  | [] => by simp [printMembers]
  | (key, v) :: fields => by
      rw [printMembers]
      have hkey := newline_not_mem_printString key
      have hv := newline_not_mem_print level v
      have hfields := newline_not_mem_printMembers level fields
      split_ifs
      · simp [hkey, hv]
      · simp [hkey, hv, hfields]

end

/-- A value is printed on one line. -/
theorem newline_not_mem_compact (v : Json) : 10 ∉ compact v := newline_not_mem_print 0 v

/-! ### Reading -/

/-- The second unit of a surrogate pair. -/
def lowSurrogate : Octets → Option ℕ
  | b :: e :: s =>
      if b = 92 ∧ e = 117 then (hexQuad s).filter fun n => 56320 ≤ n ∧ n < 57344 else none
  | _ => none

/-- The characters up to the closing quotation mark, and what follows it. -/
def readChars : ℕ → Octets → Option (List Char × Octets)
  | 0, _ => none
  | _ + 1, [] => none
  | fuel + 1, b :: s =>
      let more (c : Char) (s : Octets) := (readChars fuel s).map fun r => (c :: r.1, r.2)
      if b = 34 then some ([], s)
      else if b = 92 then
        match s with
        | [] => none
        | e :: s =>
            if e = 117 then
              match hexQuad s with
              | none => none
              | some n =>
                  if 55296 ≤ n ∧ n < 56320 then
                    match lowSurrogate (s.drop 4) with
                    | none => none
                    | some low =>
                        more (Char.ofNat (65536 + (n - 55296) * 1024 + (low - 56320))) (s.drop 10)
                  else if 56320 ≤ n ∧ n < 57344 then none
                  else more (Char.ofNat n) (s.drop 4)
            else
              match shortEscape e with
              | none => none
              | some c => more c s
      else if b < 32 then none
      else
        match Utf8.next (b :: s) with
        | (none, _) => none
        | (some c, n) => more c ((b :: s).drop n)

/-- A text that starts with a word. -/
def readWord (word : String) (v : Json) (s : Octets) : Option (Json × Octets) :=
  if (Utf8.encode word).isPrefixOf s then some (v, s.drop (Utf8.encode word).length) else none

def isDigit (b : UInt8) : Bool := 48 ≤ b ∧ b ≤ 57

/-- The number written by the digits at the start; leading zeros are not refused. -/
def readDigits (s : Octets) : Option (ℕ × Octets) :=
  let ds := s.takeWhile isDigit
  if ds = [] then none
  else some (Nat.ofDigitChars 10 (ds.map fun b => Char.ofNat b.toNat) 0, s.dropWhile isDigit)

/-- Read an integer. -/
def readInt : Octets → Option (Json × Octets)
  | [] => none
  | b :: s =>
      (if b = 45 then (readDigits s).map fun r => (-(r.1 : ℤ), r.2)
        else (readDigits (b :: s)).map fun r => ((r.1 : ℤ), r.2)).map fun r => (.int r.1, r.2)

mutual

/-- The value at the start, and what follows it. -/
def readValue : ℕ → Octets → Option (Json × Octets)
  | 0, _ => none
  | _ + 1, [] => none
  | fuel + 1, b :: s =>
      if b = 34 then
        (readChars (s.length + 1) s).map fun r => (.string (String.ofList r.1), r.2)
      else if b = 91 then
        if (skipBlank s).head? = some 93 then some (.array [], (skipBlank s).tail)
        else (readItems fuel s).map fun r => (.array r.1, r.2)
      else if b = 123 then
        if (skipBlank s).head? = some 125 then some (.object [], (skipBlank s).tail)
        else (readMembers fuel s).map fun r => (.object r.1, r.2)
      else if b = 110 then readWord "null" .null (b :: s)
      else if b = 116 then readWord "true" (.bool true) (b :: s)
      else if b = 102 then readWord "false" (.bool false) (b :: s)
      else readInt (b :: s)

/-- Read items. -/
def readItems : ℕ → Octets → Option (List Json × Octets)
  | 0, _ => none
  | fuel + 1, s =>
      match readValue fuel (skipBlank s) with
      | none => none
      | some (v, s) =>
          match skipBlank s with
          | [] => none
          | b :: s =>
              if b = 44 then (readItems fuel s).map fun r => (v :: r.1, r.2)
              else if b = 93 then some ([v], s)
              else none

/-- Read members. -/
def readMembers : ℕ → Octets → Option (List (String × Json) × Octets)
  | 0, _ => none
  | fuel + 1, s =>
      match readValue fuel (skipBlank s) with
      | some (.string key, s) =>
          match skipBlank s with
          | [] => none
          | b :: s =>
              if b = 58 then
                match readValue fuel (skipBlank s) with
                | none => none
                | some (v, s) =>
                    match skipBlank s with
                    | [] => none
                    | b :: s =>
                        if b = 44 then (readMembers fuel s).map fun r => ((key, v) :: r.1, r.2)
                        else if b = 125 then some ([(key, v)], s)
                        else none
              else none
      | _ => none

end

/-- The value of a text with blanks around it. -/
def read (s : Octets) : Option Json :=
  match readValue (s.length + 1) (skipBlank s) with
  | some (v, s) => if skipBlank s = [] then some v else none
  | none => none

/-! ### A text is read as its value -/

theorem readChars_char {c : Char} {t : Octets} (h : CharText c t) (fuel : ℕ) (s : Octets) :
    readChars (fuel + 1) (t ++ s) = (readChars fuel s).map fun r => (c :: r.1, r.2) := by
  cases h with
  | plain hcontrol hquote hbackslash =>
    obtain ⟨b, tail, hb, hle, h34, h92, -⟩ := encode_plain hcontrol hquote hbackslash
    have hnext := Utf8.next_encode c s
    rw [hb, List.cons_append] at hnext
    rw [hb, List.cons_append, readChars.eq_def]
    simp only [if_neg h34, if_neg h92, if_neg (UInt8.not_lt.2 hle), hnext, List.length_cons,
      List.drop_succ_cons, List.drop_left]
  | @short e h =>
    have h117 : e ≠ 117 := by
      rintro rfl
      cases h
    rw [List.cons_append, List.cons_append, List.nil_append, readChars.eq_def]
    simp only [if_neg (show ¬ (92 : UInt8) = 34 by decide), if_pos, if_neg h117, h]
  | @unit a b d e h =>
    have hquad : hexQuad (a :: b :: d :: e :: s) = some c.toNat := h
    have hvalid : c.toNat < 55296 ∨ 57344 ≤ c.toNat := by
      rcases c.valid with h | ⟨h, -⟩
      · exact Or.inl h
      · exact Or.inr h
    rw [List.cons_append, List.cons_append, readChars.eq_def]
    simp only [if_neg (show ¬ (92 : UInt8) = 34 by decide), if_pos, List.cons_append,
      List.nil_append, hquad]
    rw [if_neg (by omega), if_neg (by omega), Char.ofNat_toNat]
    rfl
  | @pair a b d e a' b' d' e' high low hhigh hlow hc hhigh' hlow' =>
    have hmax : c.toNat < 1114112 := by
      rcases c.valid with h | ⟨-, h⟩
      · exact h.trans (by decide)
      · exact h
    have hquad : hexQuad (a :: b :: d :: e :: 92 :: 117 :: a' :: b' :: d' :: e' :: s) = some high :=
      hhigh
    have hlow : lowSurrogate (92 :: 117 :: a' :: b' :: d' :: e' :: s) = some low := by
      have hquad' : hexQuad (a' :: b' :: d' :: e' :: s) = some low := hlow
      rw [lowSurrogate, if_pos ⟨rfl, rfl⟩, hquad', Option.filter_some, if_pos]
      simp only [decide_eq_true_eq]
      omega
    have hchar : Char.ofNat (65536 + (high - 55296) * 1024 + (low - 56320)) = c := by
      have hnat : 65536 + (high - 55296) * 1024 + (low - 56320) = c.toNat := by omega
      rw [hnat, Char.ofNat_toNat]
    rw [List.cons_append, List.cons_append, readChars.eq_def]
    simp only [if_neg (show ¬ (92 : UInt8) = 34 by decide), if_pos, List.cons_append,
      List.nil_append, hquad]
    rw [if_pos (by omega)]
    simp only [List.drop_succ_cons, List.drop_zero, hlow, hchar]

theorem readChars_chars {cs : List Char} {t : Octets} (h : CharsText cs t) (s : Octets) :
    ∀ fuel, t.length < fuel → readChars fuel (t ++ 34 :: s) = some (cs, s) := by
  induction h with
  | nil =>
    intro fuel hfuel
    obtain ⟨fuel, rfl⟩ := Nat.exists_eq_succ_of_ne_zero (Nat.ne_of_gt hfuel)
    rfl
  | @cons c t cs rest hchar _ ih =>
    intro fuel hfuel
    obtain ⟨fuel, rfl⟩ := Nat.exists_eq_succ_of_ne_zero (Nat.ne_of_gt (Nat.zero_lt_of_lt hfuel))
    have hpos : 0 < t.length := by
      cases hchar with
      | plain hcontrol hquote hbackslash =>
        obtain ⟨b, tail, hb, -⟩ := encode_plain hcontrol hquote hbackslash
        rw [hb]
        simp
      | _ => simp
    rw [List.length_append] at hfuel
    rw [List.append_assoc, readChars_char hchar, ih fuel (by omega)]
    rfl

/-- No digit comes first. -/
def NoDigit (s : Octets) : Prop := ∀ b ∈ s.head?, isDigit b = false

theorem readDigits_digits (n : ℕ) {s : Octets} (hs : NoDigit s) :
    readDigits (digits n ++ s) = some (n, s) := by
  have hall : ∀ b ∈ digits n, isDigit b = true := fun b hb => decide_eq_true (digits_range hb)
  have hrest : s.takeWhile isDigit = [] ∧ s.dropWhile isDigit = s := by
    cases s with
    | nil => exact ⟨rfl, rfl⟩
    | cons b s =>
      have hb : ¬ isDigit b = true := by simp [hs b rfl]
      exact ⟨List.takeWhile_cons_of_neg hb, List.dropWhile_cons_of_neg hb⟩
  have htake : (digits n ++ s).takeWhile isDigit = digits n := by
    rw [List.takeWhile_append_of_pos hall, hrest.1, List.append_nil]
  have hdrop : (digits n ++ s).dropWhile isDigit = s := by
    rw [List.dropWhile_append_of_pos hall, hrest.2]
  have hne : digits n ≠ [] := by simp [digits, Nat.toDigits_ne_nil]
  have hchars : (digits n).map (fun b => Char.ofNat b.toNat) = Nat.toDigits 10 n := by
    rw [digits, List.map_map]
    refine (List.map_congr_left fun c hc => ?_).trans (List.map_id _)
    have hdigit := Nat.isDigit_of_mem_toDigits (by decide) (by decide) hc
    have hle : c.toNat ≤ 57 := by
      simp only [Char.isDigit, Bool.and_eq_true, decide_eq_true_eq, UInt32.le_iff_toNat_le]
        at hdigit
      exact hdigit.2
    rw [Function.comp_apply, Utf8.octet, UInt8.toNat_ofNat', Nat.mod_eq_of_lt (by omega),
      Char.ofNat_toNat]
    rfl
  rw [readDigits, htake, hdrop, if_neg hne, hchars, Nat.ofDigitChars_ten_toDigits]

theorem readInt_intText (n : ℤ) {s : Octets} (hs : NoDigit s) :
    readInt (intText n ++ s) = some (.int n, s) := by
  unfold intText
  by_cases hn : n < 0
  · rw [if_pos hn, List.cons_append, readInt, if_pos rfl, readDigits_digits _ hs]
    have habs : -((n.natAbs : ℕ) : ℤ) = n := by omega
    simp only [Option.map_some, habs]
  · have hdigits := readDigits_digits n.natAbs hs
    rw [if_neg hn]
    cases hd : digits n.natAbs with
    | nil => simp [digits, Nat.toDigits_ne_nil] at hd
    | cons b ds =>
      have hb : b ≠ 45 := by
        rintro rfl
        have := digits_range (hd ▸ List.mem_cons_self : (45 : UInt8) ∈ digits n.natAbs)
        exact absurd this (by decide)
      have habs : ((n.natAbs : ℕ) : ℤ) = n := by omega
      rw [hd, List.cons_append] at hdigits
      rw [List.cons_append, readInt, if_neg hb, hdigits]
      simp only [Option.map_some, habs]

theorem readWord_word (word : String) (v : Json) (s : Octets) :
    readWord word v (Utf8.encode word ++ s) = some (v, s) := by
  rw [readWord, if_pos (by simp [List.isPrefixOf_iff_prefix]), List.drop_left]

/-- How a text may start. -/
theorem head_intText (n : ℤ) : ∃ b t, intText n = b :: t ∧ (b = 45 ∨ 48 ≤ b ∧ b ≤ 57) := by
  unfold intText
  split_ifs
  · exact ⟨_, _, rfl, Or.inl rfl⟩
  · cases hd : digits n.natAbs with
    | nil => simp [digits, Nat.toDigits_ne_nil] at hd
    | cons b ds => exact ⟨b, ds, rfl, Or.inr (digits_range (hd ▸ List.mem_cons_self))⟩

theorem head_text {v : Json} {t : Octets} (h : Text v t) :
    ∃ b t', t = b :: t' ∧ isBlank b = false ∧ b ≠ 93 ∧ b ≠ 125 := by
  cases v with
  | null =>
    simp only [Text] at h
    exact ⟨110, _, h, by decide, by decide, by decide⟩
  | bool b =>
    simp only [Text] at h
    cases b with
    | true => exact ⟨116, _, h, by decide, by decide, by decide⟩
    | false => exact ⟨102, _, h, by decide, by decide, by decide⟩
  | int n =>
    simp only [Text] at h
    obtain ⟨b, t', hb, hrange⟩ := head_intText n
    have hall : ∀ b : UInt8, b = 45 ∨ 48 ≤ b ∧ b ≤ 57 →
        isBlank b = false ∧ b ≠ 93 ∧ b ≠ 125 := by
      intro b hb
      rcases hb with rfl | ⟨hlow, hhigh⟩
      · decide
      · refine ⟨?_, ?_, ?_⟩
        · rw [isBlank, decide_eq_false_iff_not]
          rintro (rfl | rfl | rfl | rfl) <;> exact absurd hlow (by decide)
        · rintro rfl
          exact absurd hhigh (by decide)
        · rintro rfl
          exact absurd hhigh (by decide)
    exact ⟨b, t', h.2.trans hb, hall b hrange⟩
  | float m e => simp only [Text] at h
  | string text =>
    simp only [Text] at h
    obtain ⟨body, -, rfl⟩ := h
    exact ⟨34, _, rfl, by decide, by decide, by decide⟩
  | array items =>
    simp only [Text] at h
    obtain ⟨inner, -, rfl⟩ := h
    exact ⟨91, _, rfl, by decide, by decide, by decide⟩
  | object fields =>
    simp only [Text] at h
    obtain ⟨inner, -, rfl⟩ := h
    exact ⟨123, _, rfl, by decide, by decide, by decide⟩

/-- Blanks before a text are skipped. -/
theorem skipBlank_text {v : Json} {w t s : Octets} (hw : Blank w) (h : Text v t) :
    skipBlank (w ++ (t ++ s)) = t ++ s := by
  obtain ⟨b, t', rfl, hb, -⟩ := head_text h
  exact skipBlank_append hw (by simpa using hb)

theorem skipBlank_mark {b : UInt8} {w s : Octets} (hw : Blank w) (hb : isBlank b = false) :
    skipBlank (w ++ b :: s) = b :: s := skipBlank_append hw (by simpa using hb)

/-- Blanks and a mark that is no digit. -/
theorem noDigit_blank {b : UInt8} {w s : Octets} (hw : Blank w) (hb : isDigit b = false) :
    NoDigit (w ++ b :: s) := by
  cases w with
  | nil => simpa [NoDigit] using hb
  | cons a w =>
    have ha := hw a List.mem_cons_self
    intro b' hb'
    cases hb'
    rw [isBlank, decide_eq_true_eq] at ha
    rcases ha with rfl | rfl | rfl | rfl <;> rfl

theorem readValue_string {text : String} {t : Octets} (h : StringText text t) (fuel : ℕ)
    (s : Octets) : readValue (fuel + 1) (t ++ s) = some (.string text, s) := by
  obtain ⟨body, hbody, rfl⟩ := h
  rw [List.cons_append, List.append_assoc, readValue, if_pos rfl, List.singleton_append,
    readChars_chars hbody s _ (by simp), Option.map_some, String.ofList_toList]

mutual

theorem readValue_text : ∀ (v : Json) {t s : Octets} {fuel : ℕ}, Text v t → t.length < fuel →
    NoDigit s → readValue fuel (t ++ s) = some (v, s)
  | v, t, s, 0, _, hfuel, _ => absurd hfuel (Nat.not_lt_zero _)
  | .null, t, s, fuel + 1, h, _, _ => by
      simp only [Text] at h
      have hword := readWord_word "null" .null s
      rw [← h] at hword
      obtain rfl : t = 110 :: [117, 108, 108] := h
      simpa [readValue] using hword
  | .bool true, t, s, fuel + 1, h, _, _ => by
      simp only [Text, if_true] at h
      have hword := readWord_word "true" (.bool true) s
      rw [← h] at hword
      obtain rfl : t = 116 :: [114, 117, 101] := h
      simpa [readValue] using hword
  | .bool false, t, s, fuel + 1, h, _, _ => by
      simp only [Text] at h
      have hword := readWord_word "false" (.bool false) s
      obtain rfl : t = 102 :: [97, 108, 115, 101] := h
      have htext : Utf8.encode "false" = 102 :: [97, 108, 115, 101] := rfl
      rw [htext] at hword
      simpa [readValue] using hword
  | .int n, t, s, fuel + 1, h, _, hs => by
      simp only [Text] at h
      obtain ⟨-, rfl⟩ := h
      have hread := readInt_intText n hs
      obtain ⟨b, t, hb, hrange⟩ := head_intText n
      rw [hb] at hread ⊢
      have hne (a : UInt8) (ha : ¬ (a = 45 ∨ 48 ≤ a ∧ a ≤ 57)) : b ≠ a := by
        rintro rfl
        exact ha hrange
      rw [List.cons_append, readValue, if_neg (hne 34 (by decide)), if_neg (hne 91 (by decide)),
        if_neg (hne 123 (by decide)), if_neg (hne 110 (by decide)), if_neg (hne 116 (by decide)),
        if_neg (hne 102 (by decide))]
      exact hread
  | .float _ _, t, s, fuel + 1, h, _, _ => by simp only [Text] at h
  | .string text, t, s, fuel + 1, h, _, _ => by
      simp only [Text] at h
      exact readValue_string h fuel s
  | .array [], t, s, fuel + 1, h, _, _ => by
      simp only [Text, Items] at h
      obtain ⟨w, hw, rfl⟩ := h
      have hskip := skipBlank_mark (s := s) hw (by decide : isBlank 93 = false)
      rw [List.cons_append, List.append_assoc, readValue, if_neg (by decide), if_pos rfl,
        List.singleton_append, hskip, List.head?_cons, if_pos rfl, List.tail_cons]
  | .array (v :: items), t, s, fuel + 1, h, hfuel, _ => by
      rw [Text] at h
      obtain ⟨inner, hinner, rfl⟩ := h
      have hread : readItems fuel (inner ++ 93 :: s) = some (v :: items, s) :=
        readItems_items (v :: items) hinner (by simp) (by simp at hfuel ⊢; omega)
      have hhead : (skipBlank (inner ++ 93 :: s)).head? ≠ some 93 := by
        rw [Items] at hinner
        obtain ⟨w, text, w', hw, htext, -, ⟨-, rfl⟩ | ⟨-, rest, -, rfl⟩⟩ := hinner
        · obtain ⟨b, t', rfl, -, hb, -⟩ := head_text htext
          rw [List.append_assoc, List.append_assoc, skipBlank_text hw htext]
          simpa using hb
        · obtain ⟨b, t', rfl, -, hb, -⟩ := head_text htext
          rw [List.append_assoc, List.append_assoc, skipBlank_text hw htext]
          simpa using hb
      rw [List.cons_append, List.append_assoc, readValue, if_neg (by decide), if_pos rfl,
        List.singleton_append, if_neg hhead, hread, Option.map_some]
  | .object [], t, s, fuel + 1, h, _, _ => by
      simp only [Text, Members] at h
      obtain ⟨w, hw, rfl⟩ := h
      have hskip := skipBlank_mark (s := s) hw (by decide : isBlank 125 = false)
      rw [List.cons_append, List.append_assoc, readValue, if_neg (by decide), if_neg (by decide),
        if_pos rfl, List.singleton_append, hskip, List.head?_cons, if_pos rfl, List.tail_cons]
  | .object ((key, v) :: fields), t, s, fuel + 1, h, hfuel, _ => by
      rw [Text] at h
      obtain ⟨inner, hinner, rfl⟩ := h
      have hread : readMembers fuel (inner ++ 125 :: s) = some ((key, v) :: fields, s) :=
        readMembers_members ((key, v) :: fields) hinner (by simp) (by simp at hfuel ⊢; omega)
      have hhead : (skipBlank (inner ++ 125 :: s)).head? ≠ some 125 := by
        rw [Members] at hinner
        obtain ⟨w, k, w₁, w₂, text, w', hw, ⟨body, -, rfl⟩, -, -, -, -,
          ⟨-, rfl⟩ | ⟨-, rest, -, rfl⟩⟩ := hinner
        · rw [List.append_assoc, List.cons_append, List.cons_append,
            skipBlank_mark hw (by decide)]
          simp
        · rw [List.append_assoc, List.cons_append, List.cons_append,
            skipBlank_mark hw (by decide)]
          simp
      rw [List.cons_append, List.append_assoc, readValue, if_neg (by decide), if_neg (by decide),
        if_pos rfl, List.singleton_append, if_neg hhead, hread, Option.map_some]

theorem readItems_items : ∀ (items : List Json) {t s : Octets} {fuel : ℕ}, Items items t →
    items ≠ [] → t.length + 1 < fuel → readItems fuel (t ++ 93 :: s) = some (items, s)
  | [], _, _, _, _, hne, _ => absurd rfl hne
  | v :: items, t, s, 0, _, _, hfuel => absurd hfuel (Nat.not_lt_zero _)
  | v :: items, t, s, fuel + 1, h, _, hfuel => by
      rw [Items] at h
      obtain ⟨w, text, w', hw, htext, hw', ⟨rfl, rfl⟩ | ⟨hne, rest, hrest, rfl⟩⟩ := h
      · rw [List.append_assoc, List.append_assoc, readItems, skipBlank_text hw htext,
          readValue_text v htext (by simp at hfuel; omega) (noDigit_blank hw' (by decide))]
        simp only [skipBlank_mark hw' (show isBlank 93 = false by decide)]
        rfl
      · have hread : readItems fuel (rest ++ 93 :: s) = some (items, s) :=
          readItems_items items hrest hne (by simp at hfuel; omega)
        rw [List.append_assoc, List.append_assoc, List.append_assoc, List.cons_append, readItems,
          skipBlank_text hw htext,
          readValue_text v htext (by simp at hfuel; omega) (noDigit_blank hw' (by decide))]
        simp only [skipBlank_mark hw' (show isBlank 44 = false by decide), hread]
        rfl

theorem readMembers_members : ∀ (fields : List (String × Json)) {t s : Octets} {fuel : ℕ},
    Members fields t → fields ≠ [] → t.length + 1 < fuel →
      readMembers fuel (t ++ 125 :: s) = some (fields, s)
  | [], _, _, _, _, hne, _ => absurd rfl hne
  | f :: fields, t, s, 0, _, _, hfuel => absurd hfuel (Nat.not_lt_zero _)
  | (key, v) :: fields, t, s, fuel + 1, h, _, hfuel => by
      rw [Members] at h
      obtain ⟨w, k, w₁, w₂, text, w', hw, hk, hw₁, hw₂, htext, hw',
        ⟨rfl, rfl⟩ | ⟨hne, rest, hrest, rfl⟩⟩ := h
      · obtain ⟨fuel, rfl⟩ : ∃ n, fuel = n + 1 := ⟨fuel - 1, by simp at hfuel; omega⟩
        have hkey := readValue_string hk fuel (w₁ ++ 58 :: (w₂ ++ (text ++ (w' ++ 125 :: s))))
        have hskip : skipBlank (w ++ (k ++ (w₁ ++ 58 :: (w₂ ++ (text ++ (w' ++ 125 :: s)))))) = _ :=
          skipBlank_text (v := .string key) hw (by simpa only [Text] using hk)
        simp only [List.append_assoc, List.cons_append]
        rw [readMembers, hskip, hkey]
        simp only [skipBlank_mark hw₁ (show isBlank 58 = false by decide), if_true,
          skipBlank_text hw₂ htext]
        rw [readValue_text v htext (by simp at hfuel; omega) (noDigit_blank hw' (by decide))]
        simp only [skipBlank_mark hw' (show isBlank 125 = false by decide)]
        rfl
      · obtain ⟨fuel, rfl⟩ : ∃ n, fuel = n + 1 := ⟨fuel - 1, by simp at hfuel; omega⟩
        have hread : readMembers (fuel + 1) (rest ++ 125 :: s) = some (fields, s) :=
          readMembers_members fields hrest hne (by simp at hfuel; omega)
        have hkey := readValue_string hk fuel
          (w₁ ++ 58 :: (w₂ ++ (text ++ (w' ++ 44 :: (rest ++ 125 :: s)))))
        have hskip : skipBlank (w ++ (k ++ (w₁ ++ 58 :: (w₂ ++ (text ++ (w' ++ 44 ::
            (rest ++ 125 :: s))))))) = _ :=
          skipBlank_text (v := .string key) hw (by simpa only [Text] using hk)
        simp only [List.append_assoc, List.cons_append]
        rw [readMembers, hskip, hkey]
        simp only [skipBlank_mark hw₁ (show isBlank 58 = false by decide), if_true,
          skipBlank_text hw₂ htext]
        rw [readValue_text v htext (by simp at hfuel; omega) (noDigit_blank hw' (by decide))]
        simp only [skipBlank_mark hw' (show isBlank 44 = false by decide), if_true, hread]
        rfl

end

theorem read_document {v : Json} {s : Octets} (h : Document v s) : read s = some v := by
  obtain ⟨w, text, w', hw, htext, hw', rfl⟩ := h
  have hdigit : NoDigit w' := by
    intro b hb
    have hblank := hw' b (List.mem_of_mem_head? hb)
    rw [isBlank, decide_eq_true_eq] at hblank
    rcases hblank with rfl | rfl | rfl | rfl <;> rfl
  have hread : readValue ((w ++ (text ++ w')).length + 1) (text ++ w') = some (v, w') :=
    readValue_text v htext (by simp; omega) hdigit
  have hblank : skipBlank w' = [] := by
    have hskip := skipBlank_append (s := []) hw' (by simp)
    rwa [List.append_nil] at hskip
  rw [read, skipBlank_text hw htext, hread]
  simp only [hblank, if_true]

end Json
