import EraseMe.Library.Octets
import Mathlib.Tactic

/-!
# Base64 as octets

Tokens are octets, one for each letter.  What is encoded is decoded (`decodeOctets_encodeOctets`),
and octets that are no letters are refused.
-/

namespace Base64

/-- An alphabet of 64 different letters, all of them ASCII, without the padding. -/
structure Alphabet (abc : List Char) : Prop where
  sextet_letter : ∀ n < 64, sextet abc (letter abc n) = some n
  letter_ne : ∀ n < 64, letter abc n ≠ '='
  letter_lt : ∀ n < 64, (letter abc n).toNat < 128
  lt : ∀ c ∈ abc, c.toNat < 128

theorem alphabet_urlSafe : Alphabet urlSafe := by
  refine ⟨?_, ?_, ?_, ?_⟩
  · decide
  · decide
  · decide
  · decide

variable {abc : List Char}

theorem decode_pair (a b : Char) :
    decode abc [a, b, '=', '='] = (do
      let a ← sextet abc a
      let b ← sextet abc b
      if b % 16 ≠ 0 then none
      some [UInt8.ofNat (a * 4 + b / 16)]) := rfl

theorem decode_triple (a b : Char) {c : Char} (hc : c ≠ '=') :
    decode abc [a, b, c, '='] = (do
      let a ← sextet abc a
      let b ← sextet abc b
      let c ← sextet abc c
      if c % 4 ≠ 0 then none
      some [UInt8.ofNat (a * 4 + b / 16), UInt8.ofNat (b % 16 * 16 + c / 4)]) := by
  rw [decode]
  exact hc

/-- A quantum without padding. -/
theorem decode_quantum {a b c d : Char} (hd : d ≠ '=') (s : List Char) :
    decode abc (a :: b :: c :: d :: s) = (do
      let a ← sextet abc a
      let b ← sextet abc b
      let c ← sextet abc c
      let d ← sextet abc d
      let rest ← decode abc s
      some (UInt8.ofNat (a * 4 + b / 16) :: UInt8.ofNat (b % 16 * 16 + c / 4) ::
        UInt8.ofNat (c % 4 * 64 + d) :: rest)) := by
  rw [decode]
  · rintro rfl rfl rfl
    exact hd rfl
  · rintro rfl rfl
    exact hd rfl

theorem toNat_lt (b : UInt8) : b.toNat < 256 := b.toNat_lt

theorem toNat_ofNat {n : ℕ} (h : n < 256) : (UInt8.ofNat n).toNat = n :=
  UInt8.toNat_ofNat_of_lt' h

theorem ofNat_eq {n : ℕ} {b : UInt8} (h : n = b.toNat) : UInt8.ofNat n = b := by
  rw [h, UInt8.ofNat_toNat]

/-- What is encoded is decoded. -/
theorem decode_encode (h : Alphabet abc) (s : List UInt8) : decode abc (encode abc true s) = some s := by
  induction s using encode.induct with
  | case1 => rfl
  | case2 a =>
    have ha := toNat_lt a
    simp only [encode, if_true, List.cons_append, List.nil_append]
    rw [decode_pair, h.sextet_letter _ (by omega), h.sextet_letter _ (by omega)]
    simp only [bind, Option.bind]
    rw [if_neg (by omega)]
    simp only [Option.some.injEq, List.cons.injEq, and_true]
    exact ofNat_eq (by omega)
  | case3 a b =>
    have ha := toNat_lt a
    have hb := toNat_lt b
    simp only [encode, if_true, List.cons_append, List.nil_append]
    rw [decode_triple _ _ (h.letter_ne _ (by omega)), h.sextet_letter _ (by omega),
      h.sextet_letter _ (by omega), h.sextet_letter _ (by omega)]
    simp only [bind, Option.bind]
    rw [if_neg (by omega)]
    simp only [Option.some.injEq, List.cons.injEq, and_true]
    exact ⟨ofNat_eq (by omega), ofNat_eq (by omega)⟩
  | case4 a b c s ih =>
    have ha := toNat_lt a
    have hb := toNat_lt b
    have hc := toNat_lt c
    rw [encode, decode_quantum (h.letter_ne _ (by omega)), h.sextet_letter _ (by omega),
      h.sextet_letter _ (by omega), h.sextet_letter _ (by omega), h.sextet_letter _ (by omega), ih]
    simp only [bind, Option.bind, Option.some.injEq, List.cons.injEq, and_true]
    exact ⟨ofNat_eq (by omega), ofNat_eq (by omega), ofNat_eq (by omega)⟩

/-- Everything encoded is ASCII. -/
theorem encode_lt (h : Alphabet abc) (s : List UInt8) : ∀ c ∈ encode abc true s, c.toNat < 128 := by
  induction s using encode.induct with
  | case1 => simp [encode]
  | case2 a =>
    have ha := toNat_lt a
    simp only [encode, if_true, List.forall_mem_append, List.forall_mem_cons, List.not_mem_nil,
      false_imp_iff, implies_true, and_true]
    exact ⟨⟨h.letter_lt _ (by omega), h.letter_lt _ (by omega)⟩, by decide, by decide⟩
  | case3 a b =>
    have ha := toNat_lt a
    have hb := toNat_lt b
    simp only [encode, if_true, List.forall_mem_append, List.forall_mem_cons, List.not_mem_nil,
      false_imp_iff, implies_true, and_true]
    exact ⟨⟨h.letter_lt _ (by omega), h.letter_lt _ (by omega), h.letter_lt _ (by omega)⟩,
      by decide⟩
  | case4 a b c s ih =>
    have ha := toNat_lt a
    have hb := toNat_lt b
    have hc := toNat_lt c
    simp only [encode, List.forall_mem_cons]
    exact ⟨h.letter_lt _ (by omega), h.letter_lt _ (by omega), h.letter_lt _ (by omega),
      h.letter_lt _ (by omega), ih⟩

/-- A text that starts with no letter is refused. -/
theorem decode_eq_none {c : Char} (hc : c ∉ abc) (s : List Char) : decode abc (c :: s) = none := by
  have hsextet : sextet abc c = none := if_neg hc
  unfold decode
  split
  · next heq => cases heq
  · next heq =>
    cases heq
    simp [hsextet]
  · next heq =>
    cases heq
    simp [hsextet]
  · next heq =>
    cases heq
    simp [hsextet]
  · rfl

/-- The token as octets. -/
def encodeOctets (abc : List Char) (s : List UInt8) : List UInt8 :=
  (encode abc true s).map fun c => UInt8.ofNat c.toNat

/-- Decode octets of text. -/
def decodeOctets (abc : List Char) (token : List UInt8) : Option (List UInt8) :=
  decode abc (token.map fun b => Char.ofNat b.toNat)

theorem decodeOctets_encodeOctets (h : Alphabet abc) (s : List UInt8) :
    decodeOctets abc (encodeOctets abc s) = some s := by
  have hchars : ((encode abc true s).map fun c => UInt8.ofNat c.toNat).map
      (fun b => Char.ofNat b.toNat) = encode abc true s := by
    rw [List.map_map]
    conv_rhs => rw [← List.map_id (encode abc true s)]
    refine List.map_congr_left fun c hc => ?_
    have hlt := encode_lt h s c hc
    rw [Function.comp_apply, toNat_ofNat (by omega), Char.ofNat_toNat, id_eq]
  rw [decodeOctets, encodeOctets, hchars, decode_encode h]

theorem encodeOctets_lt (h : Alphabet abc) (s : List UInt8) :
    ∀ b ∈ encodeOctets abc s, b.toNat < 128 := by
  intro b hb
  obtain ⟨c, hc, rfl⟩ := List.mem_map.1 hb
  have hlt := encode_lt h s c hc
  rw [toNat_ofNat (by omega)]
  exact hlt

/-- Octets that start above ASCII are refused. -/
theorem decodeOctets_eq_none (h : Alphabet abc) {b : UInt8} (hb : 128 ≤ b.toNat)
    (token : List UInt8) : decodeOctets abc (b :: token) = none := by
  have hlt := toNat_lt b
  have hvalid : ∀ n < 256, (Char.ofNat n).toNat = n := by decide +kernel
  refine decode_eq_none (fun hmem => ?_) _
  have hascii := h.lt _ hmem
  rw [hvalid _ hlt] at hascii
  omega

theorem encodeOctets_ne_nil {s : List UInt8} (hs : s ≠ []) : encodeOctets abc s ≠ [] := by
  match s with
  | [] => exact absurd rfl hs
  | [a] => simp [encodeOctets, encode]
  | [a, b] => simp [encodeOctets, encode]
  | a :: b :: c :: s => simp [encodeOctets, encode]

/-! ### Without padding -/

/-- The padding that belongs to a text of this length. -/
def padding (n : ℕ) : List Char := List.replicate ((4 - n % 4) % 4) '='

theorem encode_padding (abc : List Char) (s : List UInt8) :
    encode abc true s = encode abc false s ++ padding (encode abc false s).length := by
  induction s using encode.induct with
  | case1 => simp [encode, padding]
  | case2 a => rfl
  | case3 a b => rfl
  | case4 a b c s ih =>
    have hmod (n : ℕ) : padding (n + 1 + 1 + 1 + 1) = padding n := by
      simp only [padding]
      congr 2
      omega
    rw [encode, encode, ih]
    simp only [List.length_cons, hmod, List.cons_append]

/-- Decode without padding. -/
def decodeUnpadded (abc : List Char) (s : List Char) : Option (List UInt8) :=
  decode abc (s ++ padding s.length)

theorem decodeUnpadded_encode (h : Alphabet abc) (s : List UInt8) :
    decodeUnpadded abc (encode abc false s) = some s := by
  rw [decodeUnpadded, ← encode_padding, decode_encode h]

/-- A character of the alphabet may be replaced by another one. -/
theorem map_encode {abc' : List Char} {f : Char → Char}
    (hf : ∀ n < 64, f (letter abc n) = letter abc' n) (s : List UInt8) :
    (encode abc false s).map f = encode abc' false s := by
  induction s using encode.induct with
  | case1 => rfl
  | case2 a =>
    have ha := toNat_lt a
    simp [encode, hf _ (show a.toNat / 4 < 64 by omega), hf _ (show a.toNat % 4 * 16 < 64 by omega)]
  | case3 a b =>
    have ha := toNat_lt a
    have hb := toNat_lt b
    simp [encode, hf _ (show a.toNat / 4 < 64 by omega),
      hf _ (show a.toNat % 4 * 16 + b.toNat / 16 < 64 by omega),
      hf _ (show b.toNat % 16 * 4 < 64 by omega)]
  | case4 a b c s ih =>
    have ha := toNat_lt a
    have hb := toNat_lt b
    have hc := toNat_lt c
    simp [encode, hf _ (show a.toNat / 4 < 64 by omega),
      hf _ (show a.toNat % 4 * 16 + b.toNat / 16 < 64 by omega),
      hf _ (show b.toNat % 16 * 4 + c.toNat / 64 < 64 by omega),
      hf _ (show c.toNat % 64 < 64 by omega), ih]

theorem encode_ne_nil {s : List UInt8} (hs : s ≠ []) (pad : Bool) : encode abc pad s ≠ [] := by
  match s with
  | [] => exact absurd rfl hs
  | [a] => simp [encode]
  | [a, b] => simp [encode]
  | a :: b :: c :: s => simp [encode]

end Base64
