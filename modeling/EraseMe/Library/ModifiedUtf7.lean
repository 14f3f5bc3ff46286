import EraseMe.Library.Base64Text

/-!
# Modified UTF-7 of RFC 3501

Printable characters stand for themselves, `&-` for an ampersand, and `&…-` for a part in UTF-16 and
modified base64.  `decode_shift` and `decode_printable` read what an encoder writes, piece by piece.
-/

namespace Utf16

/-- The units of a character, high octets first. -/
def encodeChar (c : Char) : List UInt8 :=
  let unit (n : ℕ) : List UInt8 := [UInt8.ofNat (n / 256), UInt8.ofNat (n % 256)]
  let n := c.toNat
  if n < 65536 then unit n
  else unit (55296 + (n - 65536) / 1024) ++ unit (56320 + (n - 65536) % 1024)

/-- Units alone and in pairs; `high` is the first one of a pair. -/
def decodeAux : Option ℕ → List UInt8 → Option (List Char)
  | none, [] => some []
  | none, a :: b :: s =>
      let u := a.toNat * 256 + b.toNat
      if u < 55296 ∨ 57344 ≤ u then (decodeAux none s).map (Char.ofNat u :: ·)
      else if u < 56320 then decodeAux (some u) s
      else none
  | some high, a :: b :: s =>
      let u := a.toNat * 256 + b.toNat
      if 56320 ≤ u ∧ u < 57344 then
        (decodeAux none s).map (Char.ofNat (65536 + (high - 55296) * 1024 + (u - 56320)) :: ·)
      else none
  | _, _ => none

/-- Undo UTF-16. -/
def decode (s : List UInt8) : Option (List Char) := decodeAux none s

theorem toNat_unit {n : ℕ} (h : n < 65536) :
    (UInt8.ofNat (n / 256)).toNat * 256 + (UInt8.ofNat (n % 256)).toNat = n := by
  rw [Base64.toNat_ofNat (by omega), Base64.toNat_ofNat (by omega)]
  omega

theorem decode_encodeChar (c : Char) (s : List UInt8) :
    decode (encodeChar c ++ s) = (decode s).map (c :: ·) := by
  have hvalid : c.toNat < 55296 ∨ 57343 < c.toNat ∧ c.toNat < 1114112 := c.valid
  unfold decode encodeChar
  by_cases hsmall : c.toNat < 65536
  · simp only [if_pos hsmall, List.cons_append, List.nil_append, decodeAux, toNat_unit hsmall]
    rw [if_pos (by omega), Char.ofNat_toNat]
  -- a pair of surrogates
  · have hhigh : 55296 + (c.toNat - 65536) / 1024 < 65536 := by omega
    have hlow : 56320 + (c.toNat - 65536) % 1024 < 65536 := by omega
    simp only [if_neg hsmall, List.cons_append, List.nil_append, decodeAux, toNat_unit hhigh,
      toNat_unit hlow]
    rw [if_neg (by omega), if_pos (by omega), if_pos (by omega)]
    have hchar : 65536 + (55296 + (c.toNat - 65536) / 1024 - 55296) * 1024 +
        (56320 + (c.toNat - 65536) % 1024 - 56320) = c.toNat := by omega
    rw [hchar, Char.ofNat_toNat]

theorem decode_encode (t : List Char) : decode (t.flatMap encodeChar) = some t := by
  induction t with
  | nil => rfl
  | cons c t ih => rw [List.flatMap_cons, decode_encodeChar, ih, Option.map_some]

theorem encodeChar_ne_nil (c : Char) : encodeChar c ≠ [] := by
  unfold encodeChar
  simp only
  split_ifs <;> simp

end Utf16

namespace Utf7

/-- The alphabet for shifted parts, with a comma for the slash. -/
def modified : List Char := Base64.alphabet ['+', ',']

theorem alphabet_modified : Base64.Alphabet modified := by
  refine ⟨?_, ?_, ?_, ?_⟩
  · decide
  · decide
  · decide
  · decide

/-- A shifted part; the empty one is the ampersand. -/
def part (shifted : List Char) : Option (List Char) :=
  if shifted = [] then some ['&']
  else (Base64.decodeUnpadded modified shifted).bind Utf16.decode

/-- Read on, in a shifted part after the ampersand that opened it. -/
def decodeAux : Option (List Char) → List Char → Option (List Char)
  | none, [] => some []
  | none, c :: s =>
      if c = '&' then decodeAux (some []) s
      else if ' ' ≤ c ∧ c ≤ '~' then (decodeAux none s).map (c :: ·)
      else none
  | some _, [] => none
  | some shifted, c :: s =>
      if c = '-' then do
        let text ← part shifted
        let rest ← decodeAux none s
        some (text ++ rest)
      else decodeAux (some (shifted ++ [c])) s

/-- Undo the encoding. -/
def decode (s : List Char) : Option (List Char) := decodeAux none s

theorem decode_printable {c : Char} (hc : ' ' ≤ c ∧ c ≤ '~') (hne : c ≠ '&') (s : List Char) :
    decode (c :: s) = (decode s).map (c :: ·) := by
  rw [decode, decodeAux, if_neg hne, if_pos hc]
  rfl

theorem decode_ampersand (s : List Char) :
    decode ('&' :: '-' :: s) = (decode s).map ('&' :: ·) := by
  rw [decode, decodeAux, if_pos rfl, decodeAux, if_pos rfl]
  cases h : decodeAux none s <;> simp [part, decode, h]

/-- Up to the hyphen the part is collected. -/
theorem decodeAux_shifted {w : List Char} (h : '-' ∉ w) (shifted s : List Char) :
    decodeAux (some shifted) (w ++ '-' :: s) = (part (shifted ++ w)).bind fun text =>
      (decode s).map (text ++ ·) := by
  induction w generalizing shifted with
  | nil =>
    rw [List.nil_append, decodeAux, if_pos rfl, List.append_nil]
    cases part shifted with
    | none => rfl
    | some text => cases h : decodeAux none s <;> simp [decode, h]
  | cons c w ih =>
    rw [List.mem_cons, not_or] at h
    rw [List.cons_append, decodeAux, if_neg (Ne.symm h.1), ih h.2, List.append_assoc,
      List.singleton_append]

/-- A part that is not empty, shifted, reads as the part. -/
theorem decode_shift {t : List Char} (ht : t ≠ []) (s : List Char) :
    decode ('&' :: (Base64.encode modified false (t.flatMap Utf16.encodeChar) ++ '-' :: s)) =
      (decode s).map (t ++ ·) := by
  -- the alphabet has no hyphen, so that the first one ends the part
  have hhyphen : '-' ∉ Base64.encode modified false (t.flatMap Utf16.encodeChar) := by
    intro hmem
    rcases Base64.mem_encode hmem with hletter | hpadding
    · exact absurd hletter (by decide)
    · exact absurd hpadding (by decide)
  have hoctets : t.flatMap Utf16.encodeChar ≠ [] := by
    obtain ⟨c, t, rfl⟩ := List.exists_cons_of_ne_nil ht
    simp [Utf16.encodeChar_ne_nil]
  rw [decode, decodeAux, if_pos rfl, decodeAux_shifted hhyphen, List.nil_append, part,
    if_neg (Base64.encode_ne_nil hoctets false), Base64.decodeUnpadded_encode alphabet_modified,
    Option.bind_some, Utf16.decode_encode, Option.bind_some]

end Utf7
