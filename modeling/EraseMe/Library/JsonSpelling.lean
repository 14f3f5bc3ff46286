import EraseMe.Library.JsonTree
import EraseMe.Library.Utf8Text

/-!
# JSON texts with any strings and numbers

`Spells string number v s` says that the octets `s` are a JSON text of the value `v`, without blanks
around it, where `string` says how a string is written and `number` what a number stands for.  A
string is written as `StringText` has it, or as `LooseText` has it: there it need not be UTF-8, and
U+FFFD is read for every octet that starts no character and for every surrogate without a partner.

Every well-formed text is a text of some value of the second kind (`exists_spells`).
-/

namespace Json

/-! ### Strings that need not be UTF-8 -/

/-- The characters that are read inside a string. -/
inductive LooseChars : List Char → Octets → Prop
  | nil : LooseChars [] []
  | char {c : Char} {t : Octets} {cs : List Char} {s : Octets} (h : CharText c t)
      (hs : LooseChars cs s) : LooseChars (c :: cs) (t ++ s)
  | octet {b : UInt8} {cs : List Char} {s : Octets} (hb : ¬ b < 0x80)
      (hnext : (Utf8.next (b :: s)).1 = none) (hs : LooseChars cs s) :
      LooseChars (Utf8.replacement :: cs) (b :: s)
  | surrogate {a b d e : UInt8} {n : ℕ} {cs : List Char} {s : Octets}
      (h : hexQuad [a, b, d, e] = some n) (hn : 55296 ≤ n ∧ n < 57344)
      (halone : n < 56320 → lowSurrogate s = none) (hs : LooseChars cs s) :
      LooseChars (Utf8.replacement :: cs) (92 :: 117 :: a :: b :: d :: e :: s)

/-- A spelling of a text. -/
def LooseText (text : String) (s : Octets) : Prop :=
  ∃ body, LooseChars text.toList body ∧ s = 34 :: (body ++ [34])

theorem looseChars_of_chars {cs : List Char} {s : Octets} (h : CharsText cs s) :
    LooseChars cs s := by
  induction h with
  | nil => exact .nil
  | cons h _ ih => exact .char h ih

theorem looseText_of_text {text : String} {s : Octets} (h : StringText text s) :
    LooseText text s := by
  obtain ⟨body, hbody, rfl⟩ := h
  exact ⟨body, looseChars_of_chars hbody, rfl⟩

theorem hexValue_lt {b : UInt8} {n : ℕ} (h : hexValue b = some n) : n < 16 := by
  have hle (x y : UInt8) : x ≤ y ↔ x.toNat ≤ y.toNat := UInt8.le_iff_toNat_le
  unfold hexValue at h
  simp only [hle, UInt8.reduceToNat] at h
  split_ifs at h <;> cases h <;> omega

theorem hexQuad_eq_some {s : Octets} {n : ℕ} (h : hexQuad s = some n) :
    ∃ a b d e r, s = a :: b :: d :: e :: r ∧ hexQuad [a, b, d, e] = some n := by
  match s, h with
  | a :: b :: d :: e :: r, h => exact ⟨a, b, d, e, r, rfl, h⟩

/-- Four hexadecimal digits are a number of 16 bits. -/
theorem exists_hexQuad {a b d e : UInt8} (h : ∀ x ∈ [a, b, d, e], isHex x = true) :
    ∃ n, hexQuad [a, b, d, e] = some n ∧ n < 65536 := by
  simp only [List.forall_mem_cons, List.not_mem_nil, false_implies, implies_true, and_true, isHex,
    Option.isSome_iff_exists] at h
  obtain ⟨⟨i, hi⟩, ⟨j, hj⟩, ⟨k, hk⟩, ⟨l, hl⟩⟩ := h
  refine ⟨((i * 16 + j) * 16 + k) * 16 + l, ?_, ?_⟩
  · simp [hexQuad, hi, hj, hk, hl]
  · have hi := hexValue_lt hi
    have hj := hexValue_lt hj
    have hk := hexValue_lt hk
    have hl := hexValue_lt hl
    omega

theorem lowSurrogate_eq_some {s : Octets} {n : ℕ} (h : lowSurrogate s = some n) :
    ∃ a b d e r, s = 92 :: 117 :: a :: b :: d :: e :: r ∧ hexQuad [a, b, d, e] = some n ∧
      56320 ≤ n ∧ n < 57344 := by
  match s, h with
  | x :: y :: s, h =>
    rw [lowSurrogate] at h
    split_ifs at h with hxy
    obtain ⟨rfl, rfl⟩ := hxy
    obtain ⟨hquad, hn⟩ := Option.filter_eq_some_iff.1 h
    obtain ⟨a, b, d, e, r, rfl, hquad⟩ := hexQuad_eq_some hquad
    exact ⟨a, b, d, e, r, rfl, hquad, by simpa using hn⟩

/-- No octet of a character of several octets is an ASCII one. -/
theorem not_lt_of_mem_encodeChar {c : Char} (hc : 128 ≤ c.toNat) {b : UInt8}
    (hb : b ∈ String.utf8EncodeChar c) : ¬ b < 0x80 := by
  intro hlt
  have hnat : b.toNat < 128 := UInt8.lt_iff_toNat_lt.1 hlt
  have hmem : Char.ofNat b.toNat ∈ [c] := by
    refine Utf8.mem_of_mem_encode hlt ?_
    rw [Utf8.encode_ofList_cons]
    exact List.mem_append_left _ hb
  rw [← List.mem_singleton.1 hmem, Utf8.toNat_ofNat_char (by omega)] at hc
  omega

theorem stringBody_tail {b : UInt8} {s : Octets} (hb : ¬ b < 0x80) (h : StringBody (b :: s)) :
    StringBody s := by
  cases h with
  | plain _ _ _ hs => exact hs
  | short => exact absurd (by decide) hb
  | unit => exact absurd (by decide) hb

/-- What comes after octets outside ASCII is the rest of the string. -/
theorem stringBody_of_append {t s : Octets} (ht : ∀ b ∈ t, ¬ b < 0x80) (h : StringBody (t ++ s)) :
    StringBody s := by
  induction t with
  | nil => exact h
  | cons b t ih =>
    rw [List.forall_mem_cons] at ht
    exact ih ht.2 (stringBody_tail ht.1 h)

theorem charText_ascii {b : UInt8} (hlt : b < 0x80) (hcontrol : 32 ≤ b) (hquote : b ≠ 34)
    (hbackslash : b ≠ 92) : CharText (Char.ofNat b.toNat) [b] := by
  have hnat : b.toNat < 128 := UInt8.lt_iff_toNat_lt.1 hlt
  have hchar : (Char.ofNat b.toNat).toNat = b.toNat := Utf8.toNat_ofNat_char (by omega)
  have hencode : String.utf8EncodeChar (Char.ofNat b.toNat) = [b] := by
    rw [Utf8.encode_char_of_lt (by omega), hchar, UInt8.ofNat_toNat]
  have hne {m : UInt8} {c : Char} (hm : b ≠ m) (hc : c.toNat = m.toNat) :
      Char.ofNat b.toNat ≠ c := by
    rintro rfl
    rw [hchar] at hc
    exact hm (UInt8.toNat_inj.1 hc)
  have hplain : CharText (Char.ofNat b.toNat) (String.utf8EncodeChar (Char.ofNat b.toNat)) := by
    refine .plain ?_ (hne hquote rfl) (hne hbackslash rfl)
    rw [hchar]
    exact UInt8.le_iff_toNat_le.1 hcontrol
  rwa [hencode] at hplain

/-- The characters of any string. -/
theorem exists_looseChars {s : Octets} (h : StringBody s) : ∃ cs, LooseChars cs s := by
  induction hlength : s.length using Nat.strong_induction_on generalizing s with
  | _ k ih =>
  subst hlength
  cases h with
  | nil => exact ⟨[], .nil⟩
  | @plain b s hcontrol hquote hbackslash hs =>
    by_cases hb : b < 0x80
    · obtain ⟨cs, hcs⟩ := ih _ (by simp) hs rfl
      exact ⟨_, .char (charText_ascii hb hcontrol hquote hbackslash) hcs⟩
    rcases hnext : Utf8.next (b :: s) with ⟨_ | c, n⟩
    · obtain ⟨cs, hcs⟩ := ih _ (by simp) hs rfl
      exact ⟨_, .octet hb (by rw [hnext]) hcs⟩
    · have hc := Utf8.next_ge hb hnext
      have hencode := Utf8.encode_of_next hnext
      have hrest : StringBody ((b :: s).drop n) := by
        refine stringBody_of_append (fun _ => not_lt_of_mem_encodeChar hc) ?_
        rw [← hencode]
        exact .plain hcontrol hquote hbackslash hs
      have hpos := Utf8.next_pos b s
      rw [hnext] at hpos
      obtain ⟨cs, hcs⟩ := ih _ (by simp at hpos ⊢; omega) hrest rfl
      rw [hencode]
      refine ⟨_, .char (.plain (by omega) ?_ ?_) hcs⟩
      · rintro rfl
        exact absurd hc (by decide)
      · rintro rfl
        exact absurd hc (by decide)
  | short he hs =>
    obtain ⟨c, hc⟩ := Option.isSome_iff_exists.1 he
    obtain ⟨cs, hcs⟩ := ih _ (by simp) hs rfl
    exact ⟨_, .char (.short hc) hcs⟩
  | @unit a b c d s hhex hs =>
    obtain ⟨n, hn, hlt⟩ := exists_hexQuad hhex
    obtain ⟨cs, hcs⟩ := ih _ (by simp; omega) hs rfl
    by_cases hsurrogate : 55296 ≤ n ∧ n < 57344
    · by_cases hpair : n < 56320 ∧ lowSurrogate s ≠ none
      · obtain ⟨low, hlow⟩ := Option.ne_none_iff_exists'.1 hpair.2
        obtain ⟨a', b', d', e', r, rfl, hquad, hrange⟩ := lowSurrogate_eq_some hlow
        have hr : StringBody r := by
          cases hs with
          | plain _ _ h => exact absurd rfl h
          | short he => cases he
          | unit _ hr => exact hr
        obtain ⟨cs', hcs'⟩ := ih _ (by simp; omega) hr rfl
        have hc : (Char.ofNat (65536 + (n - 55296) * 1024 + (low - 56320))).toNat =
            65536 + (n - 55296) * 1024 + (low - 56320) := Utf8.toNat_ofNat_char (by omega)
        have hchar : CharText _ [92, 117, a, b, c, d, 92, 117, a', b', d', e'] :=
          .pair (c := Char.ofNat (65536 + (n - 55296) * 1024 + (low - 56320))) hn hquad (by omega)
            (by omega) (by omega)
        exact ⟨_, .char hchar hcs'⟩
      · refine ⟨_, .surrogate hn hsurrogate (fun h => ?_) hcs⟩
        by_contra hne
        exact hpair ⟨h, hne⟩
    · have hc : (Char.ofNat n).toNat = n := Utf8.toNat_ofNat_char (by omega)
      exact ⟨_, .char (.unit (hc.symm ▸ hn)) hcs⟩

/-! ### Texts of values -/

section Spells

variable (string : String → Octets → Prop) (number : Octets → ℤ ⊕ ℤ × ℤ)

mutual

/-- The texts of a value. -/
def Spells : Json → Octets → Prop
  | .null, s => s = Utf8.encode "null"
  | .bool b, s => s = Utf8.encode (if b then "true" else "false")
  | .int n, s => NumberText s ∧ number s = .inl n
  | .float mantissa exponent, s => NumberText s ∧ number s = .inr (mantissa, exponent)
  | .string text, s => string text s
  | .array items, s => ∃ inner, SpellsItems items inner ∧ s = 91 :: (inner ++ [93])
  | .object fields, s => ∃ inner, SpellsMembers fields inner ∧ s = 123 :: (inner ++ [125])

/-- The texts between the brackets of an array. -/
def SpellsItems : List Json → Octets → Prop
  | [], s => Blank s
  | v :: items, s => ∃ w text w', Blank w ∧ Spells v text ∧ Blank w' ∧
      (items = [] ∧ s = w ++ (text ++ w') ∨
        items ≠ [] ∧ ∃ rest, SpellsItems items rest ∧ s = w ++ (text ++ (w' ++ 44 :: rest)))

/-- The texts between the braces of an object. -/
def SpellsMembers : List (String × Json) → Octets → Prop
  | [], s => Blank s
  | (key, v) :: fields, s => ∃ w k w₁ w₂ text w', Blank w ∧ string key k ∧ Blank w₁ ∧
      Blank w₂ ∧ Spells v text ∧ Blank w' ∧
      (fields = [] ∧ s = w ++ (k ++ (w₁ ++ 58 :: (w₂ ++ (text ++ w')))) ∨
        fields ≠ [] ∧ ∃ rest, SpellsMembers fields rest ∧
          s = w ++ (k ++ (w₁ ++ 58 :: (w₂ ++ (text ++ (w' ++ 44 :: rest))))))

end

/-- A text with blanks around it. -/
def SpellsDocument (v : Json) (s : Octets) : Prop :=
  ∃ w text w', Blank w ∧ Spells string number v text ∧ Blank w' ∧ s = w ++ (text ++ w')

end Spells

section Mono

variable {string string' : String → Octets → Prop} {number : Octets → ℤ ⊕ ℤ × ℤ}

mutual

theorem Spells.mono (h : ∀ text s, string text s → string' text s) : ∀ (v : Json) {s : Octets},
    Spells string number v s → Spells string' number v s
  | .null, _, hs => by simpa only [Spells] using hs
  | .bool _, _, hs => by simpa only [Spells] using hs
  | .int _, _, hs => by simpa only [Spells] using hs
  | .float _ _, _, hs => by simpa only [Spells] using hs
  | .string text, s, hs => by
      simp only [Spells] at hs ⊢
      exact h text s hs
  | .array items, s, hs => by
      simp only [Spells] at hs ⊢
      obtain ⟨inner, hinner, rfl⟩ := hs
      exact ⟨inner, SpellsItems.mono h items hinner, rfl⟩
  | .object fields, s, hs => by
      simp only [Spells] at hs ⊢
      obtain ⟨inner, hinner, rfl⟩ := hs
      exact ⟨inner, SpellsMembers.mono h fields hinner, rfl⟩

theorem SpellsItems.mono (h : ∀ text s, string text s → string' text s) :
    ∀ (items : List Json) {s : Octets}, SpellsItems string number items s →
      SpellsItems string' number items s
  | [], _, hs => by simpa only [SpellsItems] using hs
  | v :: items, s, hs => by
      rw [SpellsItems] at hs ⊢
      obtain ⟨w, text, w', hw, htext, hw', hcases⟩ := hs
      refine ⟨w, text, w', hw, Spells.mono h v htext, hw', hcases.imp id ?_⟩
      rintro ⟨hne, rest, hrest, rfl⟩
      exact ⟨hne, rest, SpellsItems.mono h items hrest, rfl⟩

theorem SpellsMembers.mono (h : ∀ text s, string text s → string' text s) :
    ∀ (fields : List (String × Json)) {s : Octets}, SpellsMembers string number fields s →
      SpellsMembers string' number fields s
  | [], _, hs => by simpa only [SpellsMembers] using hs
  | (key, v) :: fields, s, hs => by
      rw [SpellsMembers] at hs ⊢
      obtain ⟨w, k, w₁, w₂, text, w', hw, hk, hw₁, hw₂, htext, hw', hcases⟩ := hs
      refine ⟨w, k, w₁, w₂, text, w', hw, h key k hk, hw₁, hw₂, Spells.mono h v htext, hw',
        hcases.imp id ?_⟩
      rintro ⟨hne, rest, hrest, rfl⟩
      exact ⟨hne, rest, SpellsMembers.mono h fields hrest, rfl⟩

end

theorem SpellsDocument.mono (h : ∀ text s, string text s → string' text s) {v : Json} {s : Octets}
    (hs : SpellsDocument string number v s) : SpellsDocument string' number v s := by
  obtain ⟨w, text, w', hw, htext, hw', rfl⟩ := hs
  exact ⟨w, text, w', hw, htext.mono h v, hw', rfl⟩

end Mono

/-! ### Values without numbers -/

mutual

/-- No number anywhere. -/
def Numberless : Json → Prop
  | .int _ => False
  | .float _ _ => False
  | .array items => NumberlessItems items
  | .object fields => NumberlessMembers fields
  | _ => True

/-- The same for items. -/
def NumberlessItems : List Json → Prop
  | [] => True
  | v :: items => Numberless v ∧ NumberlessItems items

/-- The same for members. -/
def NumberlessMembers : List (String × Json) → Prop
  | [] => True
  | (_, v) :: fields => Numberless v ∧ NumberlessMembers fields

end

mutual

theorem plain_of_numberless : ∀ v : Json, Numberless v → Plain v
  | .null, _ => by simp only [Plain]
  | .bool _, _ => by simp only [Plain]
  | .int _, h => by simp only [Numberless] at h
  | .float _ _, h => by simp only [Numberless] at h
  | .string _, _ => by simp only [Plain]
  | .array items, h => by
      simp only [Numberless] at h
      simp only [Plain, plainItems_of_numberless items h]
  | .object fields, h => by
      simp only [Numberless] at h
      simp only [Plain, plainMembers_of_numberless fields h]

theorem plainItems_of_numberless : ∀ items : List Json, NumberlessItems items → PlainItems items
  | [], _ => by simp only [PlainItems]
  | v :: items, h => by
      rw [NumberlessItems] at h
      rw [PlainItems]
      exact ⟨plain_of_numberless v h.1, plainItems_of_numberless items h.2⟩

theorem plainMembers_of_numberless : ∀ fields : List (String × Json),
    NumberlessMembers fields → PlainMembers fields
  | [], _ => by simp only [PlainMembers]
  | (_, v) :: fields, h => by
      rw [NumberlessMembers] at h
      rw [PlainMembers]
      exact ⟨plain_of_numberless v h.1, plainMembers_of_numberless fields h.2⟩

end

section Numberless

variable {number : Octets → ℤ ⊕ ℤ × ℤ}

mutual

theorem spells_iff_text : ∀ (v : Json) {s : Octets}, Numberless v →
    (Spells StringText number v s ↔ Text v s)
  | .null, _, _ => by simp only [Spells, Text]
  | .bool _, _, _ => by simp only [Spells, Text]
  | .int _, _, h => by simp only [Numberless] at h
  | .float _ _, _, h => by simp only [Numberless] at h
  | .string _, _, _ => by simp only [Spells, Text]
  | .array items, _, h => by
      simp only [Numberless] at h
      simp only [Spells, Text, spellsItems_iff_items items h]
  | .object fields, _, h => by
      simp only [Numberless] at h
      simp only [Spells, Text, spellsMembers_iff_members fields h]

theorem spellsItems_iff_items : ∀ (items : List Json) {s : Octets}, NumberlessItems items →
    (SpellsItems StringText number items s ↔ Items items s)
  | [], _, _ => by simp only [SpellsItems, Items]
  | v :: items, _, h => by
      rw [NumberlessItems] at h
      rw [SpellsItems, Items]
      simp only [spells_iff_text v h.1, spellsItems_iff_items items h.2]

theorem spellsMembers_iff_members : ∀ (fields : List (String × Json)) {s : Octets},
    NumberlessMembers fields → (SpellsMembers StringText number fields s ↔ Members fields s)
  | [], _, _ => by simp only [SpellsMembers, Members]
  | (_, v) :: fields, _, h => by
      rw [NumberlessMembers] at h
      rw [SpellsMembers, Members]
      simp only [spells_iff_text v h.1, spellsMembers_iff_members fields h.2]

end

theorem spellsDocument_iff_document {v : Json} {s : Octets} (h : Numberless v) :
    SpellsDocument StringText number v s ↔ Document v s := by
  simp only [SpellsDocument, Document, spells_iff_text v h]

end Numberless

/-! ### How texts start and end -/

/-- What may follow a value. -/
def Ends (s : Octets) : Prop := ∀ b ∈ s.head?, isBlank b = true ∨ b = 44 ∨ b = 93 ∨ b = 125

theorem ends_blank {w : Octets} (hw : Blank w) : Ends w :=
  fun b hb => Or.inl (hw b (List.mem_of_mem_head? hb))

theorem ends_mark {b : UInt8} {w s : Octets} (hw : Blank w) (hb : b = 44 ∨ b = 93 ∨ b = 125) :
    Ends (w ++ b :: s) := by
  intro a ha
  cases w with
  | nil =>
    obtain rfl := Option.some.inj ha
    exact Or.inr hb
  | cons c w =>
    obtain rfl := Option.some.inj ha
    exact Or.inl (hw c List.mem_cons_self)

/-- The first octets of the texts of a value. -/
def Opens : Json → UInt8 → Prop
  | .null, b => b = 110
  | .bool _, b => b = 116 ∨ b = 102
  | .int _, b => b = 45 ∨ isDigit b = true
  | .float _ _, b => b = 45 ∨ isDigit b = true
  | .string _, b => b = 34
  | .array _, b => b = 91
  | .object _, b => b = 123

theorem head_numberText {s : Octets} (h : NumberText s) :
    ∃ b t, s = b :: t ∧ (b = 45 ∨ isDigit b = true) := by
  cases s with
  | nil => exact absurd h not_numberText_nil
  | cons b s =>
    obtain ⟨q, hq, -⟩ := numberText_cons.1 h
    refine ⟨b, s, rfl, ?_⟩
    rcases start_cases hq with ⟨-, h, -⟩ | ⟨rfl, -⟩ | ⟨rfl, -⟩ | ⟨h, -⟩ | ⟨-, h, -⟩ | ⟨-, h, -⟩ |
      ⟨-, h, -⟩
    · cases h
    · exact Or.inl rfl
    · exact Or.inr rfl
    · exact Or.inr h
    · cases h
    · cases h
    · cases h

section Head

variable {number : Octets → ℤ ⊕ ℤ × ℤ} {v : Json} {t : Octets}

theorem head_spells (h : Spells StringText number v t) : ∃ b t', t = b :: t' ∧ Opens v b := by
  cases v with
  | null =>
    simp only [Spells] at h
    exact ⟨_, _, h, rfl⟩
  | bool b =>
    simp only [Spells] at h
    cases b with
    | false => exact ⟨_, _, h, Or.inr rfl⟩
    | true => exact ⟨_, _, h, Or.inl rfl⟩
  | int n =>
    simp only [Spells] at h
    exact head_numberText h.1
  | float mantissa exponent =>
    simp only [Spells] at h
    exact head_numberText h.1
  | string text =>
    simp only [Spells] at h
    obtain ⟨body, -, rfl⟩ := h
    exact ⟨_, _, rfl, rfl⟩
  | array items =>
    simp only [Spells] at h
    obtain ⟨inner, -, rfl⟩ := h
    exact ⟨_, _, rfl, rfl⟩
  | object fields =>
    simp only [Spells] at h
    obtain ⟨inner, -, rfl⟩ := h
    exact ⟨_, _, rfl, rfl⟩

theorem Opens.ne {b : UInt8} (h : Opens v b) : isBlank b = false ∧ b ≠ 93 ∧ b ≠ 125 := by
  have hnumber (hb : b = 45 ∨ isDigit b = true) : isBlank b = false ∧ b ≠ 93 ∧ b ≠ 125 := by
    rcases hb with rfl | hb
    · decide
    refine ⟨?_, isDigit_ne hb rfl, isDigit_ne hb rfl⟩
    rw [isBlank, decide_eq_false_iff_not]
    rintro (rfl | rfl | rfl | rfl) <;> cases hb
  cases v with
  | int n => exact hnumber h
  | float mantissa exponent => exact hnumber h
  | bool b =>
    rcases h with rfl | rfl
    · decide
    · decide
  | _ =>
    cases h
    decide

theorem skipBlank_spells (h : Spells StringText number v t) {w : Octets} (hw : Blank w)
    (s : Octets) : skipBlank (w ++ (t ++ s)) = t ++ s := by
  obtain ⟨b, t', rfl, hb⟩ := head_spells h
  exact skipBlank_append hw (by simpa using hb.ne.1)

end Head

/-! ### Every well-formed text has a value -/

section Trees

variable (number : Octets → ℤ ⊕ ℤ × ℤ)

theorem exists_looseText {s : Octets} (h : TokenText .string s) : ∃ text, LooseText text s := by
  cases h with
  | string h =>
    obtain ⟨cs, hcs⟩ := exists_looseChars h
    exact ⟨String.ofList cs, _, by rwa [String.toList_ofList], rfl⟩

theorem exists_spells_leaf {kind : Kind} {s : Octets} (h : TokenText kind s) :
    ∃ v, Spells LooseText number v s ∧ v.depth = 0 := by
  cases h with
  | string h =>
    obtain ⟨text, htext⟩ := exists_looseText (.string h)
    exact ⟨.string text, by simpa only [Spells] using htext, rfl⟩
  | number h =>
    rcases hnumber : number s with n | ⟨mantissa, exponent⟩
    · exact ⟨.int n, by simpa only [Spells] using ⟨h, hnumber⟩, rfl⟩
    · exact ⟨.float mantissa exponent, by simpa only [Spells] using ⟨h, hnumber⟩, rfl⟩
  | true => exact ⟨.bool true, by simp only [Spells]; rfl, rfl⟩
  | false => exact ⟨.bool false, by simp only [Spells]; rfl, rfl⟩
  | null => exact ⟨.null, by simp only [Spells]; rfl, rfl⟩

/-- What is between the brackets has values, one at least. -/
def Filled (bracket : Bracket) (s : Octets) (depth : ℕ) : Prop :=
  match bracket with
  | .array => ∃ items, items ≠ [] ∧ SpellsItems LooseText number items s ∧ depthItems items = depth
  | .object =>
      ∃ fields, fields ≠ [] ∧ SpellsMembers LooseText number fields s ∧ depthFields fields = depth

variable {number}

theorem Filled.last {bracket : Bracket} (head : Head bracket) {v : Json} {t : Octets}
    (h : Spells LooseText number v t) (after : Space) :
    Filled number bracket (head.octets ++ (t ++ after.octets)) v.depth := by
  cases head with
  | item before =>
    refine ⟨[v], by simp, ?_, by simp [depthItems]⟩
    rw [SpellsItems]
    exact ⟨_, _, _, before.blank, h, after.blank, Or.inl ⟨rfl, rfl⟩⟩
  | member before key colon between =>
    obtain ⟨name, hname⟩ := exists_looseText key.valid
    refine ⟨[(name, v)], by simp, ?_, by simp [depthFields]⟩
    rw [SpellsMembers]
    exact ⟨_, _, _, _, _, _, before.blank, hname, colon.blank, between.blank, h, after.blank,
      Or.inl ⟨rfl, by simp [Head.octets]⟩⟩

theorem Filled.more {bracket : Bracket} (head : Head bracket) {v : Json} {t rest : Octets}
    {depth : ℕ} (h : Spells LooseText number v t) (after : Space)
    (hrest : Filled number bracket rest depth) :
    Filled number bracket (head.octets ++ (t ++ (after.octets ++ 44 :: rest)))
      (max v.depth depth) := by
  cases head with
  | item before =>
    obtain ⟨items, hne, hitems, rfl⟩ := hrest
    refine ⟨v :: items, by simp, ?_, by simp [depthItems]⟩
    rw [SpellsItems]
    exact ⟨_, _, _, before.blank, h, after.blank, Or.inr ⟨hne, rest, hitems, rfl⟩⟩
  | member before key colon between =>
    obtain ⟨name, hname⟩ := exists_looseText key.valid
    obtain ⟨fields, hne, hfields, rfl⟩ := hrest
    refine ⟨(name, v) :: fields, by simp, ?_, by simp [depthFields]⟩
    rw [SpellsMembers]
    exact ⟨_, _, _, _, _, _, before.blank, hname, colon.blank, between.blank, h, after.blank,
      Or.inr ⟨hne, rest, hfields, by simp [Head.octets]⟩⟩

mutual

theorem exists_spells : ∀ t : Tree, ∃ v, Spells LooseText number v t.octets ∧ v.depth = t.depth
  | .leaf token => exists_spells_leaf number token.valid
  | .empty .array space => by
      refine ⟨.array [], ?_, rfl⟩
      simp only [Spells, SpellsItems]
      exact ⟨_, space.blank, rfl⟩
  | .empty .object space => by
      refine ⟨.object [], ?_, rfl⟩
      simp only [Spells, SpellsMembers]
      exact ⟨_, space.blank, rfl⟩
  | .node .array entries => by
      obtain ⟨items, -, hitems, hdepth⟩ := filled_entries entries
      refine ⟨.array items, ?_, by rw [depth, hdepth, Tree.depth]⟩
      simp only [Spells]
      exact ⟨_, hitems, rfl⟩
  | .node .object entries => by
      obtain ⟨fields, -, hfields, hdepth⟩ := filled_entries entries
      refine ⟨.object fields, ?_, by rw [depth, hdepth, Tree.depth]⟩
      simp only [Spells]
      exact ⟨_, hfields, rfl⟩

theorem filled_entries {bracket : Bracket} :
    ∀ entries : Entries bracket, Filled number bracket entries.octets entries.depth
  | .last head value after => by
      obtain ⟨v, hv, hdepth⟩ := exists_spells value
      rw [Entries.octets, Entries.depth, ← hdepth]
      exact .last head hv after
  | .more head value after rest => by
      obtain ⟨v, hv, hdepth⟩ := exists_spells value
      rw [Entries.octets, Entries.depth, ← hdepth]
      exact .more head hv after (filled_entries rest)

end

end Trees

end Json
