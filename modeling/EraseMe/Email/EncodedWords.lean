import EraseMe.Email.Parse
import EraseMe.Library.Slices

/-!
# Encoded words of a header

`decode_header` cuts a header value at octet offsets that it finds by searching.  The cuts are
always at the ends of characters, no index is out of range, and the loop ends: it computes what
`decodeHeader` does (`decodeHeaderOctets_eq`).
-/

namespace EraseMe.Email

open Slices

/-! ### The loop of the source, in octets -/

/-- The value of an octet that is a hexadecimal digit. -/
def fromHexOctet (byte : UInt8) : Option UInt8 :=
  if 0x30 ≤ byte ∧ byte ≤ 0x39 then some (byte - 0x30)
  else if 0x41 ≤ byte ∧ byte ≤ 0x46 then some (byte - 0x41 + 10)
  else if 0x61 ≤ byte ∧ byte ≤ 0x66 then some (byte - 0x61 + 10)
  else none

/-- A blank between words. -/
def isWhitespaceOctet (byte : UInt8) : Bool :=
  byte = 0x20 ∨ byte = 0x09 ∨ byte = 0x0A ∨ byte = 0x0D

/-- Whether an octet stands for itself. -/
def isPlainOctet (byte : UInt8) : Bool :=
  (0x20 ≤ byte ∧ byte ≤ 0x7E) ∨ byte = 0x0A ∨ byte = 0x0D ∨ byte = 0x09

/-- `quoted_printable_decode` with a number of rounds; nothing if they do not suffice or an index is
out of range. -/
def quotedPrintableLoop (bytes : List UInt8) :
    ℕ → ℕ → List UInt8 → Option (Option (List UInt8))
  | 0, _, _ => none
  | fuel + 1, index, out =>
      if index < bytes.length then do
        let byte ← bytes[index]?
        if byte = 0x5F then quotedPrintableLoop bytes fuel (index + 1) (out ++ [0x20])
        else if byte = 0x3D then
          if index + 2 ≥ bytes.length then some none
          else do
            let first ← bytes[index + 1]?
            match fromHexOctet first with
            | none => some none
            | some high => do
                let second ← bytes[index + 2]?
                match fromHexOctet second with
                | none => some none
                | some low =>
                    quotedPrintableLoop bytes fuel (index + 3) (out ++ [high <<< 4 ||| low])
        else if isPlainOctet byte then quotedPrintableLoop bytes fuel (index + 1) (out ++ [byte])
        else some none
      else some (some out)

/-- `decodeWord` on octets. -/
def decodeWordOctets (encoding : UInt8) (text : List Char) : Option (Option (List UInt8)) :=
  if encoding = 0x42 ∨ encoding = 0x62 then some (Base64.decode Base64.standard text)
  else if encoding = 0x51 ∨ encoding = 0x71 then
    quotedPrintableLoop (octets text) ((octets text).length + 1) 0 []
  else some none

/-- The charset, the encoding and the text of a word, and where it ends. -/
abbrev Opened := List Char × UInt8 × List Char × ℕ

/-- What follows the charset of a word. -/
def readText (header charset : List Char) (cursor : ℕ) : Option (Option Opened) :=
  if Slices.size header < cursor + 3 then some none
  else do
    let encoding ← (octets header)[cursor]?
    let cursor := cursor + 1
    let separator ← (octets header)[cursor]?
    if separator ≠ 0x3F then some none
    else do
      let cursor := cursor + 1
      let rest ← Slices.sliceFrom cursor header
      match find ['?', '='] rest with
      | none => some none
      | some textEnd => do
          let text ← slice cursor (cursor + textEnd) header
          some (some (charset, encoding, text, cursor + textEnd + 2))

/-- The word that is opened at an offset. -/
def readWord (header : List Char) (start : ℕ) : Option (Option Opened) := do
  let cursor := start + 2
  let rest ← Slices.sliceFrom cursor header
  match find ['?'] rest with
  | none => some none
  | some charsetEnd => do
      let charset ← slice cursor (cursor + charsetEnd) header
      readText header charset (cursor + charsetEnd + 1)

/-- The loop with a number of rounds: the outer `none` is a round too many, a slice inside a
character or an index out of range. -/
def decodeLoop : ℕ → Bool → List Char → List Char → Option (Option (List Char))
  | 0, _, _, _ => none
  | fuel + 1, betweenWords, out, header =>
      match find ['=', '?'] header with
      | none => some (some (out ++ header))
      | some start => do
          match ← readWord header start with
          | none => some (some (out ++ header))
          | some (charset, encoding, text, finish) => do
              match ← decodeWordOctets encoding text with
              | none => do
                  let word ← slice 0 finish header
                  let rest ← Slices.sliceFrom finish header
                  decodeLoop fuel false (out ++ word) rest
              | some content => do
                  let gap ← slice 0 start header
                  let visible := !(octets gap).all isWhitespaceOctet
                  let out := if start > 0 ∧ (!betweenWords || visible) then out ++ gap else out
                  match convertCharset charset content with
                  | none => some none
                  | some converted => do
                      let rest ← Slices.sliceFrom finish header
                      decodeLoop fuel true (out ++ converted) rest

/-- `decodeHeader` on octets. -/
def decodeHeaderOctets (value : List Char) : Option (Option (List Char)) :=
  match find ['=', '?'] value with
  | none => some (some value)
  | some start => do
      let out ← slice 0 start value
      let header ← Slices.sliceFrom start value
      decodeLoop (value.length + 1) false out header

/-! ### Words -/

/-- An encoded word. -/
structure Word where
  charset : List Char
  encoding : Char
  text : List Char
  deriving DecidableEq, Repr

namespace Word

/-- How a word is written. -/
def written (w : Word) : List Char :=
  ['=', '?'] ++ (w.charset ++ ('?' :: w.encoding :: '?' :: (w.text ++ ['?', '='])))

/-- The first mark ends the charset, the encoding is an ASCII character, and the text goes up to the
first closing. -/
structure WellFormed (w : Word) : Prop where
  charset : '?' ∉ w.charset
  encoding : w.encoding.toNat < 128
  text : ¬ ['?', '='] <:+: w.text

/-- The octets the text stands for. -/
def content (w : Word) : Option (List UInt8) := decodeWord w.encoding w.text

/-- The charset is none of the three that are converted. -/
def Foreign (w : Word) : Prop :=
  ∀ charset ∈ ["utf-8", "iso-8859-1", "us-ascii"],
    Text.eqIgnoreAsciiCase w.charset charset.toList = false

/-- What stands for the word: its decoded text, or the word itself. -/
def shown (w : Word) : List Char :=
  match w.content with
  | some content => (convertCharset w.charset content).getD []
  | none => w.written

end Word

/-! ### The first word -/

section Pair

variable {a b : Char}

theorem splitAtPair_eq (a b : Char) (s : List Char) : splitAtPair a b s =
    (Text.find [a, b] s).map fun n => (s.take n, s.drop (n + 2)) := by
  fun_induction splitAtPair a b s with
  | case1 c d s h =>
    obtain ⟨rfl, rfl⟩ := h
    rw [show c :: d :: s = [c, d] ++ s from rfl, Text.find_self]
    rfl
  | case2 c d s h ih =>
    have hprefix : ¬ [a, b] <+: c :: d :: s := by
      rintro ⟨r, hr⟩
      simp only [List.cons_append, List.cons.injEq] at hr
      exact h ⟨hr.1.symm, hr.2.1.symm⟩
    rw [ih, Text.find_cons_of_not hprefix, Option.map_map, Option.map_map]
    rfl
  | case3 s h =>
    have hnone : Text.find [a, b] s = none := by
      match s with
      | [] => rfl
      | [c] => simp [Text.find]
      | c :: d :: s => exact absurd rfl (h c d s)
    rw [hnone]
    rfl

theorem splitAtPair_append {before : List Char} (hne : a ≠ b) (h : ¬ [a, b] <:+: before)
    (after : List Char) :
    splitAtPair a b (before ++ a :: b :: after) = some (before, after) := by
  have hfind := Text.find_append ((Text.apart_pair_iff (s := b :: after) hne).2 h)
  rw [show a :: b :: after = [a, b] ++ after from rfl, Text.find_self] at hfind
  rw [splitAtPair_eq, show a :: b :: after = [a, b] ++ after from rfl, hfind, Option.map_some,
    Option.map_some, Nat.zero_add, List.take_left, ← List.drop_drop, List.drop_left]
  rfl

theorem splitAtPair_cases (hne : a ≠ b) (s : List Char) :
    (splitAtPair a b s = none ∧ ¬ [a, b] <:+: s) ∨
      ∃ before after, s = before ++ a :: b :: after ∧ ¬ [a, b] <:+: before := by
  rcases Text.find_cases [a, b] s with ⟨hnone, hinfix⟩ | ⟨before, after, rfl, hapart, -⟩
  · exact Or.inl ⟨by rw [splitAtPair_eq, hnone]; rfl, hinfix⟩
  · exact Or.inr ⟨before, after, rfl, (Text.apart_pair_iff hne).1 hapart⟩

end Pair

theorem splitOnce_cases (sep : Char) (s : List Char) :
    (Text.splitOnce sep s = none ∧ sep ∉ s) ∨
      ∃ before after, s = before ++ sep :: after ∧ sep ∉ before := by
  by_cases h : sep ∈ s
  · exact Or.inr (List.eq_append_cons_of_mem h)
  · exact Or.inl ⟨if_neg h, h⟩

theorem opening_ne : '=' ≠ '?' := by decide

/-- What follows the charset of a word: its encoding, its text and the text after it. -/
def wordTail : List Char → Option (Char × List Char × List Char)
  | encoding :: '?' :: s =>
      if encoding.toNat < 128 ∧ s ≠ [] then
        (splitAtPair '?' '=' s).map fun p => (encoding, p.1, p.2)
      else none
  | _ => none

theorem wordTail_eq_some_iff {s text after : List Char} {encoding : Char} :
    wordTail s = some (encoding, text, after) ↔
      s = encoding :: '?' :: (text ++ '?' :: '=' :: after) ∧ encoding.toNat < 128 ∧
        ¬ ['?', '='] <:+: text := by
  constructor
  · intro h
    unfold wordTail at h
    split at h
    · next e s =>
      split_ifs at h with hcond
      rcases splitAtPair_cases opening_ne.symm s with ⟨hnone, -⟩ | ⟨text', after', rfl, htext⟩
      · rw [hnone] at h
        cases h
      · rw [splitAtPair_append opening_ne.symm htext] at h
        cases h
        exact ⟨rfl, hcond.1, htext⟩
    · cases h
  · rintro ⟨rfl, hencoding, htext⟩
    rw [wordTail, if_pos ⟨hencoding, by simp⟩, splitAtPair_append opening_ne.symm htext]
    rfl

/-- What is read behind an opening. -/
theorem nextWord_append {gap charset : List Char} (hgap : ¬ ['=', '?'] <:+: gap)
    (hcharset : '?' ∉ charset) (s : List Char) :
    nextWord (gap ++ '=' :: '?' :: (charset ++ '?' :: s)) =
      (wordTail s).map fun p => (gap, charset, p.1, p.2.1, p.2.2) := by
  rw [nextWord, splitAtPair_append opening_ne hgap]
  simp only [Option.bind_eq_bind, Option.bind_some, Text.splitOnce_append hcharset]
  by_cases hopened : ∃ encoding t, s = encoding :: '?' :: t
  · obtain ⟨encoding, t, rfl⟩ := hopened
    by_cases htext : encoding.toNat < 128 ∧ t ≠ []
    · simp only [wordTail, if_pos htext]
      cases splitAtPair '?' '=' t <;> rfl
    · simp only [wordTail, if_neg htext]
      rfl
  · have hnone : wordTail s = none := by
      rw [wordTail]
      exact fun encoding t ht => hopened ⟨encoding, t, ht⟩
    rw [hnone]
    split
    · next encoding t => exact absurd ⟨encoding, t, rfl⟩ hopened
    · rfl

/-- The first word of a header: what `nextWord` finds is written there, behind a gap without an
opening. -/
theorem nextWord_eq_some_iff {header gap after : List Char} {w : Word} :
    nextWord header = some (gap, w.charset, w.encoding, w.text, after) ↔
      header = gap ++ (w.written ++ after) ∧ ¬ ['=', '?'] <:+: gap ∧ w.WellFormed := by
  constructor
  · intro h
    rcases splitAtPair_cases opening_ne header with ⟨hnone, -⟩ | ⟨gap', s, rfl, hgap⟩
    · rw [nextWord, hnone] at h
      cases h
    rcases splitOnce_cases '?' s with ⟨hnone, -⟩ | ⟨charset, s, rfl, hcharset⟩
    · rw [nextWord, splitAtPair_append opening_ne hgap] at h
      simp [hnone] at h
    rw [nextWord_append hgap hcharset, Option.map_eq_some_iff] at h
    obtain ⟨⟨encoding, text, after'⟩, htail, hword⟩ := h
    simp only [Prod.mk.injEq] at hword
    obtain ⟨rfl, rfl, rfl, rfl, rfl⟩ := hword
    obtain ⟨rfl, hencoding, htext⟩ := wordTail_eq_some_iff.1 htail
    exact ⟨by simp [Word.written], hgap, ⟨hcharset, hencoding, htext⟩⟩
  · rintro ⟨rfl, hgap, hw⟩
    have hwritten : w.written ++ after = '=' :: '?' :: (w.charset ++ '?' ::
        (w.encoding :: '?' :: (w.text ++ '?' :: '=' :: after))) := by simp [Word.written]
    rw [hwritten, nextWord_append hgap hw.charset,
      wordTail_eq_some_iff.2 ⟨rfl, hw.encoding, hw.text⟩]
    rfl

/-! ### Quoted-printable octets -/

/-- An ASCII character is one octet, and the first two octets of another one are not ASCII. -/
theorem octets_cons_cases (c : Char) (s : List Char) :
    (c.toNat < 128 ∧ octets (c :: s) = UInt8.ofNat c.toNat :: octets s) ∨
      (128 ≤ c.toNat ∧ ∃ a b r, octets (c :: s) = a :: b :: r ∧ 0x80 ≤ a ∧ 0x80 ≤ b) := by
  by_cases hc : c.toNat < 128
  · exact Or.inl ⟨hc, by rw [octets_cons, Utf8.encode_char_of_lt hc]; rfl⟩
  · have hhigh : ∀ x ∈ String.utf8EncodeChar c, 0x80 ≤ x := by
      intro x hx
      by_contra hlt
      rw [UInt8.not_le] at hlt
      have hmem := mem_octets (s := [c]) hlt (by simpa [octets_cons] using hx)
      rw [List.mem_singleton] at hmem
      apply hc
      rw [← hmem]
      have hx' : x.toNat < 128 := hlt
      rw [Utf8.toNat_ofNat_char (by omega)]
      exact hx'
    have hsize : 2 ≤ (String.utf8EncodeChar c).length := by
      have hone : c.utf8Size ≠ 1 := by
        rw [ne_eq, Char.utf8Size_eq_one_iff, UInt32.le_iff_toNat_le]
        exact fun hle => hc (Nat.lt_succ_of_le hle)
      have hpos := c.utf8Size_pos
      rw [String.length_utf8EncodeChar]
      omega
    match hencode : String.utf8EncodeChar c with
    | [] => simp [hencode] at hsize
    | [a] => simp [hencode] at hsize
    | a :: b :: r =>
      rw [hencode] at hhigh
      exact Or.inr ⟨by omega, a, b, r ++ octets s, by rw [octets_cons, hencode]; rfl,
        hhigh a (by simp), hhigh b (by simp)⟩

theorem fromHexOctet_of_lt {c : Char} (h : c.toNat < 128) :
    fromHexOctet (UInt8.ofNat c.toNat) = (fromHex c).map UInt8.ofNat := by
  have hall : ∀ n : Fin 128, fromHexOctet (UInt8.ofNat n) =
      (fromHex (Char.ofNat n)).map UInt8.ofNat := by decide
  have hc := hall ⟨c.toNat, h⟩
  rwa [Char.ofNat_toNat] at hc

theorem fromHexOctet_of_ge {b : UInt8} (h : 0x80 ≤ b) : fromHexOctet b = none := by
  have hb : 128 ≤ b.toNat := h
  unfold fromHexOctet
  simp only [UInt8.le_iff_toNat_le, UInt8.reduceToNat]
  rw [if_neg (by omega), if_neg (by omega), if_neg (by omega)]

theorem fromHex_of_ge {c : Char} (h : 128 ≤ c.toNat) : fromHex c = none := by
  have hle : ∀ d : Char, d.toNat < 128 → ¬ c ≤ d := by
    intro d hd hcd
    have := UInt32.le_iff_toNat_le.1 hcd
    change c.toNat ≤ d.toNat at this
    omega
  unfold fromHex
  rw [if_neg fun hc => hle '9' (by decide) hc.2, if_neg fun hc => hle 'F' (by decide) hc.2,
    if_neg fun hc => hle 'f' (by decide) hc.2]

theorem fromHex_lt {c : Char} {n : ℕ} (h : fromHex c = some n) : n < 16 := by
  have hc : c.toNat < 128 := by
    by_contra hge
    rw [fromHex_of_ge (Nat.le_of_not_lt hge)] at h
    cases h
  have hall : ∀ n : Fin 128, ∀ m ∈ fromHex (Char.ofNat n), m < 16 := by decide
  have hlt := hall ⟨c.toNat, hc⟩ n
  rw [Char.ofNat_toNat] at hlt
  exact hlt h

/-- A character that stands for itself. -/
def IsPlain (c : Char) : Prop := (' ' ≤ c ∧ c ≤ '~') ∨ c = '\n' ∨ c = '\r' ∨ c = '\t'

instance (c : Char) : Decidable (IsPlain c) :=
  inferInstanceAs (Decidable ((' ' ≤ c ∧ c ≤ '~') ∨ c = '\n' ∨ c = '\r' ∨ c = '\t'))

theorem octet_iff {c : Char} (h : c.toNat < 128) :
    (UInt8.ofNat c.toNat = 0x3D ↔ c = '=') ∧ (UInt8.ofNat c.toNat = 0x5F ↔ c = '_') ∧
      (isPlainOctet (UInt8.ofNat c.toNat) = true ↔ IsPlain c) := by
  have hall : ∀ n : Fin 128, (UInt8.ofNat n = 0x3D ↔ Char.ofNat n = '=') ∧
      (UInt8.ofNat n = 0x5F ↔ Char.ofNat n = '_') ∧
        (isPlainOctet (UInt8.ofNat n) = true ↔ IsPlain (Char.ofNat n)) := by decide
  have hc := hall ⟨c.toNat, h⟩
  rwa [Char.ofNat_toNat] at hc

theorem octet_of_ge {b : UInt8} (h : 0x80 ≤ b) :
    b ≠ 0x3D ∧ b ≠ 0x5F ∧ isPlainOctet b = false := by
  have hb : 128 ≤ b.toNat := h
  unfold isPlainOctet
  simp only [ne_eq, ← UInt8.toNat_inj, UInt8.le_iff_toNat_le, UInt8.reduceToNat,
    decide_eq_false_iff_not]
  omega

theorem not_isPlain_of_ge {c : Char} (h : 128 ≤ c.toNat) : ¬ IsPlain c := by
  rintro (⟨-, hle⟩ | rfl | rfl | rfl)
  · have := UInt32.le_iff_toNat_le.1 hle
    change c.toNat ≤ 126 at this
    omega
  · exact absurd h (by decide)
  · exact absurd h (by decide)
  · exact absurd h (by decide)

section Loop

variable {fuel : ℕ} (read out r : List UInt8)

/-- One round at an octet that is not the escape. -/
theorem quotedPrintableLoop_cons {byte : UInt8} (h : byte ≠ 0x3D) :
    quotedPrintableLoop (read ++ byte :: r) (fuel + 1) read.length out =
      if byte = 0x5F then
        quotedPrintableLoop (read ++ byte :: r) fuel (read.length + 1) (out ++ [0x20])
      else if isPlainOctet byte then
        quotedPrintableLoop (read ++ byte :: r) fuel (read.length + 1) (out ++ [byte])
      else some none := by
  rw [quotedPrintableLoop, if_pos (by simp), List.getElem?_append_right le_rfl]
  simp [h]

/-- One round at the escape. -/
theorem quotedPrintableLoop_escape :
    quotedPrintableLoop (read ++ 0x3D :: r) (fuel + 1) read.length out =
      match r with
      | first :: second :: _ =>
          match fromHexOctet first, fromHexOctet second with
          | some high, some low => quotedPrintableLoop (read ++ 0x3D :: r) fuel (read.length + 3)
              (out ++ [high <<< 4 ||| low])
          | _, _ => some none
      | _ => some none := by
  rw [quotedPrintableLoop, if_pos (by simp), List.getElem?_append_right le_rfl]
  match r with
  | [] => simp
  | [first] => simp
  | first :: second :: r =>
    have hlength : ¬ read.length + 2 ≥ (read ++ 0x3D :: first :: second :: r).length := by simp
    have hfirst : (read ++ 0x3D :: first :: second :: r)[read.length + 1]? = some first := by
      rw [List.getElem?_append_right (by omega)]
      simp
    have hsecond : (read ++ 0x3D :: first :: second :: r)[read.length + 2]? = some second := by
      rw [List.getElem?_append_right (by omega)]
      simp
    simp only [Nat.sub_self, List.getElem?_cons_zero, Option.bind_eq_bind, Option.bind_some,
      if_neg hlength, hfirst, hsecond]
    cases fromHexOctet first <;> cases fromHexOctet second <;> rfl

end Loop

theorem quotedPrintableLoop_eq {s : List Char} {fuel : ℕ} (h : (octets s).length < fuel)
    (read out : List UInt8) :
    quotedPrintableLoop (read ++ octets s) fuel read.length out =
      some ((quotedPrintableDecode s).map (out ++ ·)) := by
  fun_induction quotedPrintableDecode s generalizing read out fuel with
  | case1 =>
    obtain ⟨fuel, rfl⟩ : ∃ f, fuel = f + 1 := ⟨fuel - 1, by omega⟩
    simp [quotedPrintableLoop]
  | case2 s ih =>
    obtain ⟨fuel, rfl⟩ : ∃ f, fuel = f + 1 := ⟨fuel - 1, by omega⟩
    have hoctets : octets ('_' :: s) = 0x5F :: octets s := by
      rw [octets_cons, Utf8.encode_char_of_lt (by decide)]
      rfl
    rw [hoctets] at h ⊢
    have hrest := ih (by simpa using h) (read ++ [0x5F]) (out ++ [0x20])
    rw [List.append_assoc, List.singleton_append, List.length_append, List.length_singleton]
      at hrest
    rw [quotedPrintableLoop_cons _ _ _ (by decide), if_pos rfl, hrest, Option.map_map]
    simp [Function.comp_def]
  | case3 a b s ih =>
    obtain ⟨fuel, rfl⟩ : ∃ f, fuel = f + 1 := ⟨fuel - 1, by omega⟩
    have hoctets : octets ('=' :: a :: b :: s) = 0x3D :: octets (a :: b :: s) := by
      rw [octets_cons, Utf8.encode_char_of_lt (by decide)]
      rfl
    rw [hoctets, quotedPrintableLoop_escape]
    rcases octets_cons_cases a (b :: s) with ⟨ha, hocta⟩ | ⟨ha, x, y, r, hocta, hx, -⟩
    · rcases octets_cons_cases b s with ⟨hb, hoctb⟩ | ⟨hb, x, y, r, hoctb, hx, -⟩
      · rw [hocta, hoctb]
        simp only [fromHexOctet_of_lt ha, fromHexOctet_of_lt hb]
        cases hhigh : fromHex a with
        | none => simp
        | some high =>
          cases hlow : fromHex b with
          | none => simp
          | some low =>
            have hnibbles : ∀ x y : Fin 16, UInt8.ofNat x <<< 4 ||| UInt8.ofNat y =
                UInt8.ofNat (x * 16 + y) := by decide
            have hbyte : UInt8.ofNat high <<< 4 ||| UInt8.ofNat low =
                UInt8.ofNat (high * 16 + low) :=
              hnibbles ⟨high, fromHex_lt hhigh⟩ ⟨low, fromHex_lt hlow⟩
            have hlength : (octets s).length < fuel := by
              rw [hoctets, hocta, hoctb] at h
              simp only [List.length_cons] at h
              omega
            have hrest := ih hlength
              (read ++ [0x3D, UInt8.ofNat a.toNat, UInt8.ofNat b.toNat])
              (out ++ [UInt8.ofNat (high * 16 + low)])
            rw [List.append_assoc, List.length_append] at hrest
            simp only [Option.map_some, hbyte]
            refine hrest.trans ?_
            cases quotedPrintableDecode s <;> simp
      · rw [hocta, hoctb]
        simp only [fromHexOctet_of_ge hx, fromHex_of_ge hb]
        cases fromHex a <;> simp
    · rw [hocta]
      simp [fromHexOctet_of_ge hx, fromHex_of_ge ha]
  | case4 c s hne _ hplain ih =>
    obtain ⟨fuel, rfl⟩ : ∃ f, fuel = f + 1 := ⟨fuel - 1, by omega⟩
    have hc : c.toNat < 128 := by
      by_contra hge
      exact absurd hplain.2 (not_isPlain_of_ge (Nat.le_of_not_lt hge))
    obtain ⟨hescape, hspace, hself⟩ := octet_iff hc
    have hoctets : octets (c :: s) = UInt8.ofNat c.toNat :: octets s := by
      rw [octets_cons, Utf8.encode_char_of_lt hc]
      rfl
    rw [hoctets] at h ⊢
    have hrest := ih (by simpa using h) (read ++ [UInt8.ofNat c.toNat])
      (out ++ [UInt8.ofNat c.toNat])
    rw [List.append_assoc, List.singleton_append, List.length_append, List.length_singleton]
      at hrest
    rw [quotedPrintableLoop_cons _ _ _ (mt hescape.1 hplain.1), if_neg (mt hspace.1 hne),
      if_pos (hself.2 hplain.2), hrest, Option.map_map]
    simp [Function.comp_def]
  | case5 c s hne hhex hplain =>
    obtain ⟨fuel, rfl⟩ : ∃ f, fuel = f + 1 := ⟨fuel - 1, by omega⟩
    rw [not_and] at hplain
    by_cases hescape : c = '='
    · -- not two characters are left after an escape
      subst hescape
      have hoctets : octets ('=' :: s) = 0x3D :: octets s := by
        rw [octets_cons, Utf8.encode_char_of_lt (by decide)]
        rfl
      rw [hoctets, quotedPrintableLoop_escape]
      match s with
      | [] => rfl
      | [a] =>
        rcases octets_cons_cases a [] with ⟨ha, hocta⟩ | ⟨ha, x, y, r, hocta, hx, -⟩
        · rw [hocta]
          rfl
        · rw [hocta]
          simp [fromHexOctet_of_ge hx]
      | a :: b :: s => exact absurd rfl (hhex a b s rfl)
    · rcases octets_cons_cases c s with ⟨hc, hoctets⟩ | ⟨hc, x, y, r, hoctets, hx, -⟩
      · obtain ⟨hescape', hspace, hself⟩ := octet_iff hc
        rw [hoctets, quotedPrintableLoop_cons _ _ _ (mt hescape'.1 hescape),
          if_neg (mt hspace.1 hne), if_neg (mt hself.1 (hplain hescape))]
        rfl
      · obtain ⟨hne', hspace, hself⟩ := octet_of_ge hx
        rw [hoctets, quotedPrintableLoop_cons _ _ _ hne', if_neg hspace,
          if_neg (by rw [hself]; decide)]
        rfl

/-! ### One word in octets -/

theorem decodeWordOctets_eq {encoding : Char} (h : encoding.toNat < 128) (text : List Char) :
    decodeWordOctets (UInt8.ofNat encoding.toNat) text = some (decodeWord encoding text) := by
  have hall : ∀ n : Fin 128,
      (UInt8.ofNat n = 0x42 ∨ UInt8.ofNat n = 0x62 ↔ Char.ofNat n = 'B' ∨ Char.ofNat n = 'b') ∧
      (UInt8.ofNat n = 0x51 ∨ UInt8.ofNat n = 0x71 ↔ Char.ofNat n = 'Q' ∨ Char.ofNat n = 'q') := by
    decide
  have hloop := quotedPrintableLoop_eq (Nat.lt_succ_self (octets text).length) [] []
  have hself : ((quotedPrintableDecode text).map fun out => [] ++ out) =
      quotedPrintableDecode text := by
    cases quotedPrintableDecode text <;> rfl
  rw [List.nil_append, List.length_nil, hself] at hloop
  obtain ⟨hbase, hquoted⟩ := hall ⟨encoding.toNat, h⟩
  rw [Char.ofNat_toNat] at hbase hquoted
  unfold decodeWordOctets decodeWord
  simp only [hbase, hquoted, hloop]
  split_ifs <;> rfl

/-- The text of a word is read up to its first closing. -/
theorem readText_text {start charset s : List Char} {c : Char} (hc : c.toNat < 128) (hne : s ≠ []) :
    ((Slices.sliceFrom (Slices.size start + 1 + 1) (start ++ c :: '?' :: s)).bind fun rest =>
      match find ['?', '='] rest with
      | none => some none
      | some textEnd => (slice (Slices.size start + 1 + 1) (Slices.size start + 1 + 1 + textEnd)
          (start ++ c :: '?' :: s)).bind fun text =>
            some (some (charset, UInt8.ofNat c.toNat, text,
              Slices.size start + 1 + 1 + textEnd + 2))) =
      some ((wordTail (c :: '?' :: s)).map fun p =>
        (charset, UInt8.ofNat p.1.toNat, p.2.1,
          Slices.size (start ++ c :: '?' :: s) - Slices.size p.2.2)) := by
  have hone : c.utf8Size = 1 := by
    rw [← String.length_utf8EncodeChar, Utf8.encode_char_of_lt hc]
    rfl
  have hmark : '?'.utf8Size = 1 := rfl
  have hstart : Slices.size start + 1 + 1 = Slices.size (start ++ [c, '?']) := by
    simp [hone, hmark]
  have hheader : start ++ c :: '?' :: s = start ++ [c, '?'] ++ s := by simp
  rw [wordTail, if_pos ⟨hc, hne⟩, hheader, hstart, Slices.sliceFrom_append, Option.bind_some]
  rcases Text.find_cases ['?', '='] s with ⟨hnone, hinfix⟩ | ⟨text, after, rfl, hapart, -⟩
  · rw [splitAtPair_eq, hnone, find_eq_none.2 hinfix]
    rfl
  · have htext := (Text.apart_pair_iff opening_ne.symm).1 hapart
    have hpair : text ++ (['?', '='] ++ after) = text ++ '?' :: '=' :: after := rfl
    simp only [find_append hapart, slice_append, Option.bind_some]
    rw [hpair, splitAtPair_append opening_ne.symm htext, Option.map_some, Option.map_some]
    simp only [size_append, size_cons, hone, hmark, size_nil]
    have hequals : '='.utf8Size = 1 := rfl
    rw [hequals]
    congr 5
    omega

/-- The rest of a word is read at the offset where the charset ends. -/
theorem readText_eq {start charset : List Char} (s : List Char) :
    readText (start ++ s) charset (Slices.size start) = some ((wordTail s).map fun p =>
      (charset, UInt8.ofNat p.1.toNat, p.2.1, Slices.size (start ++ s) - Slices.size p.2.2)) := by
  have hindex (n : ℕ) : (octets (start ++ s))[Slices.size start + n]? = (octets s)[n]? := by
    rw [octets_append, List.getElem?_append_right (by rw [length_octets]; omega), length_octets,
      Nat.add_sub_cancel_left]
  have hsize : Slices.size (start ++ s) < Slices.size start + 3 ↔ (octets s).length < 3 := by
    rw [size_append, length_octets]
    omega
  unfold readText
  simp only [hsize]
  split_ifs with hlt
  · cases htail : wordTail s with
    | none => rfl
    | some p =>
      obtain ⟨encoding, text, after⟩ := p
      obtain ⟨rfl, -⟩ := wordTail_eq_some_iff.1 htail
      have hlength := length_le_size (encoding :: '?' :: (text ++ '?' :: '=' :: after))
      rw [length_octets] at hlt
      simp only [List.length_cons, List.length_append] at hlength
      omega
  match hoctets : octets s with
  | [] => simp [hoctets] at hlt
  | [_] => simp [hoctets] at hlt
  | [_, _] => simp [hoctets] at hlt
  | encoding :: separator :: b :: r =>
    have hfirst := hindex 0
    have hsecond := hindex 1
    rw [hoctets] at hfirst hsecond
    simp only [Nat.add_zero, List.getElem?_cons_zero, List.getElem?_cons_succ] at hfirst hsecond
    simp only [hfirst, hsecond, Option.bind_eq_bind, Option.bind_some]
    split_ifs with hseparator
    · -- a tail has its separator behind one octet
      cases htail : wordTail s with
      | none => rfl
      | some p =>
        obtain ⟨e, text, after⟩ := p
        obtain ⟨rfl, he, -⟩ := wordTail_eq_some_iff.1 htail
        rw [octets_cons, Utf8.encode_char_of_lt he, octets_cons,
          Utf8.encode_char_of_lt (by decide)] at hoctets
        simp only [List.singleton_append, List.cons.injEq] at hoctets
        exact absurd hoctets.2.1.symm hseparator
    · rw [not_not] at hseparator
      subst hseparator
      cases s with
      | nil => simp at hoctets
      | cons c s =>
        rcases octets_cons_cases c s with ⟨hc, hone⟩ | ⟨-, x, y, r', hmany, -, hy⟩
        · rw [hone, List.cons.injEq] at hoctets
          obtain ⟨rfl, hrest⟩ := hoctets
          obtain ⟨s, rfl, hrest⟩ := eq_cons_of_octets (by decide) hrest
          have hne : s ≠ [] := by
            rintro rfl
            cases hrest
          exact readText_text hc hne
        · rw [hmany] at hoctets
          simp only [List.cons.injEq] at hoctets
          rw [hoctets.2.1] at hy
          exact absurd hy (by decide)

/-- The word behind a gap without an opening. -/
theorem readWord_eq {gap : List Char} (hgap : ¬ ['=', '?'] <:+: gap) (s : List Char) :
    readWord (gap ++ '=' :: '?' :: s) (Slices.size gap) =
      some ((nextWord (gap ++ '=' :: '?' :: s)).map fun (_, charset, encoding, text, after) =>
        (charset, UInt8.ofNat encoding.toNat, text,
          Slices.size (gap ++ '=' :: '?' :: s) - Slices.size after)) := by
  have hheader : gap ++ '=' :: '?' :: s = gap ++ ['=', '?'] ++ s := by simp
  have hstart : Slices.size gap + 2 = Slices.size (gap ++ ['=', '?']) := by
    rw [size_append]
    rfl
  have hafter : Slices.sliceFrom (Slices.size gap + 2) (gap ++ '=' :: '?' :: s) = some s := by
    rw [hheader, hstart, Slices.sliceFrom_append]
  rw [readWord]
  simp only [hafter, Option.bind_eq_bind, Option.bind_some]
  rcases Text.find_cases ['?'] s with ⟨hnone, hinfix⟩ | ⟨charset, r, rfl, hapart, -⟩
  · have hmem : '?' ∉ s := fun hmem => hinfix ((List.singleton_infix_iff _ _).2 hmem)
    rw [find_eq_none.2 hinfix, nextWord, splitAtPair_append opening_ne hgap]
    simp [Text.splitOnce, hmem]
  · have hcharset := Text.not_mem_of_apart hapart
    have hslice : slice (Slices.size gap + 2) (Slices.size gap + 2 + Slices.size charset)
        (gap ++ '=' :: '?' :: (charset ++ (['?'] ++ r))) = some charset := by
      rw [show gap ++ '=' :: '?' :: (charset ++ (['?'] ++ r)) =
        gap ++ ['=', '?'] ++ (charset ++ (['?'] ++ r)) by simp, hstart, slice_append]
    have hcursor : Slices.size gap + 2 + Slices.size charset + 1 =
        Slices.size (gap ++ '=' :: '?' :: (charset ++ ['?'])) := by
      simp only [size_append, size_cons, size_nil]
      have hequals : '='.utf8Size = 1 := rfl
      have hmark : '?'.utf8Size = 1 := rfl
      omega
    have hsplit : gap ++ '=' :: '?' :: (charset ++ ['?']) ++ r =
        gap ++ '=' :: '?' :: (charset ++ '?' :: r) := by simp
    have hnext := nextWord_append hgap hcharset r
    rw [find_append hapart]
    simp only [hslice, Option.bind_some]
    rw [hcursor, show gap ++ '=' :: '?' :: (charset ++ (['?'] ++ r)) =
      gap ++ '=' :: '?' :: (charset ++ '?' :: r) from rfl, hnext, ← hsplit]
    rw [readText_eq, Option.map_map]
    rfl

/-! ### The loop -/

theorem hasNonWhitespace_octets (s : List Char) :
    (!(octets s).all isWhitespaceOctet) = hasNonWhitespace s := by
  unfold hasNonWhitespace
  induction s with
  | nil => rfl
  | cons c s ih =>
    rw [List.any_cons, ← ih]
    rcases octets_cons_cases c s with ⟨hc, hoctets⟩ | ⟨hc, a, b, r, hoctets, ha, -⟩
    · have hall : ∀ n : Fin 128, isWhitespaceOctet (UInt8.ofNat n) =
          decide (Char.ofNat n = ' ' ∨ Char.ofNat n = '\t' ∨ Char.ofNat n = '\n' ∨
            Char.ofNat n = '\r') := by decide
      have hone := hall ⟨c.toNat, hc⟩
      rw [Char.ofNat_toNat] at hone
      rw [hoctets, List.all_cons, hone, Bool.not_and]
    · -- an octet that is not ASCII is no white space
      have hfirst : isWhitespaceOctet a = false := by
        have ha' : 128 ≤ a.toNat := ha
        unfold isWhitespaceOctet
        simp only [← UInt8.toNat_inj, UInt8.reduceToNat, decide_eq_false_iff_not]
        omega
      have hchar : ¬ (c = ' ' ∨ c = '\t' ∨ c = '\n' ∨ c = '\r') := by
        rintro (rfl | rfl | rfl | rfl) <;> exact absurd hc (by decide)
      rw [hoctets, List.all_cons, hfirst]
      simp [hchar]

theorem slice_zero (s t : List Char) : slice 0 (Slices.size s) (s ++ t) = some s := by
  have h := slice_append [] s t
  rwa [size_nil, Nat.zero_add, List.nil_append] at h

/-- The gap ends at the first opening. -/
theorem gap_of_nextWord {gap gap' s : List Char} {rest : List Char × Char × List Char × List Char}
    (hgap : ¬ ['=', '?'] <:+: gap)
    (h : nextWord (gap ++ '=' :: '?' :: s) = some (gap', rest)) : gap' = gap := by
  rcases splitOnce_cases '?' s with ⟨hnone, -⟩ | ⟨charset, r, rfl, hcharset⟩
  · rw [nextWord, splitAtPair_append opening_ne hgap] at h
    simp [hnone] at h
  · rw [nextWord_append hgap hcharset, Option.map_eq_some_iff] at h
    obtain ⟨p, -, hp⟩ := h
    exact (Prod.mk.inj hp).1.symm

/-- The loop makes the rounds of `decodeWords`, and one more that finds no word. -/
theorem decodeLoop_eq (fuel : ℕ) (betweenWords : Bool) (out header : List Char)
    (h : header.length ≤ fuel) :
    decodeLoop (fuel + 1) betweenWords out header =
      some ((decodeWords fuel betweenWords header).map (out ++ ·)) := by
  induction fuel generalizing betweenWords out header with
  | zero =>
    obtain rfl : header = [] := List.length_eq_zero_iff.1 (Nat.le_zero.1 h)
    simp [decodeLoop, decodeWords, Slices.find, Text.find]
  | succ fuel ih =>
    rcases Text.find_cases ['=', '?'] header with ⟨hnone, hinfix⟩ | ⟨gap, s, rfl, hapart, -⟩
    · rw [decodeLoop, find_eq_none.2 hinfix, decodeWords, nextWord, splitAtPair_eq, hnone]
      rfl
    have hgap := (Text.apart_pair_iff opening_ne).1 hapart
    rw [decodeLoop, find_append hapart, decodeWords]
    have hread := readWord_eq hgap s
    rw [show '=' :: '?' :: s = ['=', '?'] ++ s from rfl] at hread
    simp only [hread, Option.bind_eq_bind, Option.bind_some]
    cases hnext : nextWord (gap ++ (['=', '?'] ++ s)) with
    | none => rfl
    | some found =>
      obtain ⟨gap', charset, encoding, text, after⟩ := found
      obtain ⟨hheader, hgap', hw⟩ :=
        (nextWord_eq_some_iff (w := ⟨charset, encoding, text⟩)).1 hnext
      obtain rfl := gap_of_nextWord hgap hnext
      rw [hheader] at h ⊢
      generalize hwritten : Word.written ⟨charset, encoding, text⟩ = written at h ⊢
      have hfinish : Slices.size (gap' ++ (written ++ after)) - Slices.size after =
          Slices.size (gap' ++ written) := by
        simp only [size_append]
        omega
      have hlonger : 0 < written.length := by
        rw [← hwritten]
        simp [Word.written]
      have hrest : after.length ≤ fuel := by
        simp only [List.length_append] at h
        omega
      have hword : slice 0 (Slices.size (gap' ++ written)) (gap' ++ (written ++ after)) =
          some (gap' ++ written) := by
        rw [← List.append_assoc, slice_zero]
      have hafter : Slices.sliceFrom (Slices.size (gap' ++ written)) (gap' ++ (written ++ after)) =
          some after := by
        rw [← List.append_assoc, Slices.sliceFrom_append]
      have htake : (gap' ++ (written ++ after)).take
          ((gap' ++ (written ++ after)).length - after.length) = gap' ++ written := by
        rw [← List.append_assoc, List.length_append, Nat.add_sub_cancel, List.take_left]
      simp only [Option.map_some, Option.bind_some, decodeWordOctets_eq hw.encoding, hfinish, hword,
        hafter, htake, slice_zero, hasNonWhitespace_octets]
      cases decodeWord encoding text with
      | none =>
        simp only [ih false _ _ hrest, Option.map_map]
        cases decodeWords fuel false after <;> simp
      | some content =>
        simp only
        cases convertCharset charset content with
        | none => rfl
        | some converted =>
          have hstart : Slices.size gap' > 0 ↔ gap' ≠ [] := by
            have hle := length_le_size gap'
            constructor
            · rintro hpos rfl
              cases hpos
            · intro hne
              have hlength := List.length_pos_iff.2 hne
              omega
          simp only [ih true _ _ hrest, hstart]
          cases decodeWords fuel true after with
          | none => rfl
          | some rest => split_ifs <;> simp

/-- What comes before the first opening is part of the first gap. -/
theorem nextWord_gap {gap : List Char} (hgap : ¬ ['=', '?'] <:+: gap) (s : List Char) :
    nextWord (gap ++ '=' :: '?' :: s) =
      (nextWord ('=' :: '?' :: s)).map fun found => (gap ++ found.1, found.2) := by
  have hnil : ¬ ['=', '?'] <:+: ([] : List Char) := by simp
  rcases splitOnce_cases '?' s with ⟨hnone, -⟩ | ⟨charset, r, rfl, hcharset⟩
  · have hempty := splitAtPair_append opening_ne hnil s
    rw [List.nil_append] at hempty
    rw [nextWord, nextWord, splitAtPair_append opening_ne hgap, hempty]
    simp [hnone]
  · have hempty := nextWord_append hnil hcharset r
    rw [List.nil_append] at hempty
    rw [nextWord_append hgap hcharset, hempty, Option.map_map]
    congr 1
    funext p
    simp

theorem decodeWords_gap {gap : List Char} (hgap : ¬ ['=', '?'] <:+: gap) (fuel : ℕ)
    (s : List Char) : decodeWords fuel false (gap ++ '=' :: '?' :: s) =
      (decodeWords fuel false ('=' :: '?' :: s)).map (gap ++ ·) := by
  cases fuel with
  | zero => rfl
  | succ fuel =>
    rw [decodeWords, decodeWords, nextWord_gap hgap]
    cases hnext : nextWord ('=' :: '?' :: s) with
    | none => rfl
    | some found =>
      obtain ⟨before, charset, encoding, text, after⟩ := found
      obtain ⟨hheader, -, -⟩ := (nextWord_eq_some_iff (w := ⟨charset, encoding, text⟩)).1 hnext
      simp only [Option.map_some]
      cases decodeWord encoding text with
      | none =>
        have hlength : after.length ≤ ('=' :: '?' :: s).length := by
          rw [hheader]
          simp only [List.length_append]
          omega
        have htake : (gap ++ '=' :: '?' :: s).take
            ((gap ++ '=' :: '?' :: s).length - after.length) =
              gap ++ ('=' :: '?' :: s).take (('=' :: '?' :: s).length - after.length) := by
          rw [List.length_append, Nat.add_sub_assoc hlength, List.take_length_add_append]
        simp only [htake, Option.map_map]
        cases decodeWords fuel false after <;> simp
      | some content =>
        simp only [Option.bind_eq_bind]
        cases convertCharset charset content with
        | none => rfl
        | some converted =>
          cases decodeWords fuel true after with
          | none => rfl
          | some rest =>
            by_cases hbefore : before = []
            · cases gap <;> simp [hbefore]
            · simp [hbefore]

theorem decodeHeader_eq (value : List Char) :
    decodeHeader value = decodeWords value.length false value := by
  unfold decodeHeader
  rcases splitAtPair_cases opening_ne value with ⟨hnone, -⟩ | ⟨gap, s, rfl, hgap⟩
  · rw [hnone]
    cases hlength : value.length with
    | zero => rfl
    | succ n =>
      rw [decodeWords, nextWord, hnone]
      rfl
  · rw [splitAtPair_append opening_ne hgap, decodeWords_gap hgap]
    simp only [List.drop_left]

/-- The slices and the indices of `decode_header` are in range, and its loop ends. -/
theorem decodeHeaderOctets_eq (value : List Char) :
    decodeHeaderOctets value = some (decodeHeader value) := by
  unfold decodeHeaderOctets
  rcases Text.find_cases ['=', '?'] value with ⟨hnone, hinfix⟩ | ⟨gap, s, rfl, hapart, -⟩
  · rw [find_eq_none.2 hinfix, decodeHeader, splitAtPair_eq, hnone]
    rfl
  · have hgap := (Text.apart_pair_iff opening_ne).1 hapart
    rw [find_append hapart]
    simp only [slice_zero, Slices.sliceFrom_append, Option.bind_eq_bind, Option.bind_some]
    rw [decodeLoop_eq _ _ _ _ (by simp), decodeHeader_eq]
    exact congrArg some (decodeWords_gap hgap _ s).symm

end EraseMe.Email
