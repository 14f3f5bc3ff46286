import Mathlib.Data.String.Basic

/-!
# Octets and text

Reading octets as UTF-8 with replacement of what is ill-formed, and the base64 alphabet.

`Utf8.next` reads one character.  Where none starts, it reports the length of the longest
initial part of a character, which the lossy reader replaces by one mark (`Utf8.lossy`); the
bytewise reader replaces every octet of it (`Utf8.lossyPerByte`).
-/

/-! ### Members of a text -/

/-- A property of all members is decided member by member, also where every character could be
tried. -/
instance (priority := 1100) decidableForallChar (s : List Char) (p : Char → Prop)
    [DecidablePred p] : Decidable (∀ c ∈ s, p c) :=
  List.decidableBAll p s

/-- The same for octets. -/
instance (priority := 1100) decidableForallOctet (s : List UInt8) (p : UInt8 → Prop)
    [DecidablePred p] : Decidable (∀ b ∈ s, p b) :=
  List.decidableBAll p s

namespace Utf8

/-- The mark that stands for what could not be read. -/
def replacement : Char := Char.ofNat 0xFFFD

/-- An octet after the first. -/
def isTail (b : UInt8) : Bool := 0x80 ≤ b ∧ b ≤ 0xBF

/-- The range of the octet after the first one of a character of three or four octets. -/
def secondRange (b : UInt8) : UInt8 × UInt8 :=
  if b = 0xE0 then (0xA0, 0xBF)
  else if b = 0xED then (0x80, 0x9F)
  else if b = 0xF0 then (0x90, 0xBF)
  else if b = 0xF4 then (0x80, 0x8F)
  else (0x80, 0xBF)

/-- Within bounds. -/
def inRange (r : UInt8 × UInt8) (b : UInt8) : Bool := r.1 ≤ b ∧ b ≤ r.2

/-- The six low bits of an octet. -/
def low6 (b : UInt8) : ℕ := b.toNat % 64

/-- The character at the start of the octets and its length, or no character and the length of
the initial part of one. -/
def next : List UInt8 → Option Char × ℕ
  | [] => (none, 0)
  | a :: s =>
      if a < 0x80 then (some (Char.ofNat a.toNat), 1)
      else if 0xC2 ≤ a ∧ a ≤ 0xDF then
        match s with
        | b :: _ =>
            if isTail b then (some (Char.ofNat (a.toNat % 32 * 64 + low6 b)), 2) else (none, 1)
        | [] => (none, 1)
      else if 0xE0 ≤ a ∧ a ≤ 0xEF then
        match s with
        | b :: c :: _ =>
            if ¬ inRange (secondRange a) b then (none, 1)
            else if ¬ isTail c then (none, 2)
            else (some (Char.ofNat (a.toNat % 16 * 4096 + low6 b * 64 + low6 c)), 3)
        | [b] => (none, if inRange (secondRange a) b then 2 else 1)
        | [] => (none, 1)
      else if 0xF0 ≤ a ∧ a ≤ 0xF4 then
        match s with
        | b :: c :: d :: _ =>
            if ¬ inRange (secondRange a) b then (none, 1)
            else if ¬ isTail c then (none, 2)
            else if ¬ isTail d then (none, 3)
            else (some (Char.ofNat
              (a.toNat % 8 * 262144 + low6 b * 4096 + low6 c * 64 + low6 d)), 4)
        | [b, c] =>
            (none, if ¬ inRange (secondRange a) b then 1 else if isTail c then 3 else 2)
        | [b] => (none, if inRange (secondRange a) b then 2 else 1)
        | [] => (none, 1)
      else (none, 1)

/-- Neither a character nor an initial part of one is longer than the octets. -/
theorem next_le (s : List UInt8) : (next s).2 ≤ s.length := by
  match s with
  | [] => simp [next]
  | [a] =>
    simp only [next]
    split_ifs <;> simp
  | [a, b] =>
    simp only [next]
    split_ifs <;> simp
  | [a, b, c] =>
    simp only [next]
    split_ifs <;> simp
  | a :: b :: c :: d :: s =>
    simp only [next]
    split_ifs <;> simp

/-- Read with at most `fuel` steps; `skip` is how much of an ill-formed part one mark replaces. -/
def read (skip : ℕ → ℕ) : ℕ → List UInt8 → List Char
  | 0, _ => []
  | _, [] => []
  | fuel + 1, s =>
      match next s with
      | (some c, n) => c :: read skip fuel (s.drop n)
      | (none, n) => replacement :: read skip fuel (s.drop (skip n))

/-- `String::from_utf8_lossy`: one mark for each ill-formed part. -/
def lossy (s : List UInt8) : List Char := read id s.length s

/-- One mark for each ill-formed octet. -/
def lossyPerByte (s : List UInt8) : List Char := read (fun _ => 1) s.length s

/-- Read with at most `fuel` steps what is well-formed throughout. -/
def decodeAux : ℕ → List UInt8 → Option (List Char)
  | _, [] => some []
  | 0, _ => none
  | fuel + 1, s =>
      match next s with
      | (some c, n) => (decodeAux fuel (s.drop n)).map (c :: ·)
      | (none, _) => none

/-- `String::from_utf8`. -/
def decode (s : List UInt8) : Option (List Char) := decodeAux s.length s

/-- The octets of a text. -/
def encode (s : String) : List UInt8 := s.toList.flatMap String.utf8EncodeChar

theorem encode_char_of_lt {c : Char} (h : c.toNat < 128) :
    String.utf8EncodeChar c = [UInt8.ofNat c.toNat] := by
  unfold String.utf8EncodeChar
  rw [if_pos (show c.val.toNat ≤ 127 from Nat.le_of_lt_succ h)]
  rfl

theorem encode_append (s t : String) : encode (s ++ t) = encode s ++ encode t := by
  simp [encode]

theorem newline_not_mem_encode {s : String} (h : ∀ c ∈ s.toList, c.toNat < 128 ∧ c ≠ '\n') :
    10 ∉ encode s := by
  intro hmem
  obtain ⟨c, hc, hmem⟩ := List.mem_flatMap.1 hmem
  obtain ⟨hlt, hne⟩ := h c hc
  rw [encode_char_of_lt hlt, List.mem_singleton] at hmem
  have hnat : c.toNat = 10 := by
    have := congrArg UInt8.toNat hmem
    simp only [UInt8.toNat_ofNat'] at this
    have h10 : (10 : UInt8).toNat = 10 := rfl
    omega
  exact hne (Char.toNat_inj.1 hnat)

/-! ### Reading what starts with ASCII -/

theorem toNat_ofNat_char {n : ℕ} (h : n < 55296 ∨ 57344 ≤ n ∧ n < 1114112) :
    (Char.ofNat n).toNat = n := by
  have hvalid : n.isValidChar := by
    rcases h with h | ⟨h, h'⟩
    · exact Or.inl h
    · exact Or.inr ⟨by omega, h'⟩
  unfold Char.ofNat
  rw [dif_pos hvalid]
  rfl

/-- A character of several octets is not an ASCII one. -/
theorem next_ge {a : UInt8} {s : List UInt8} {c : Char} {n : ℕ} (ha : ¬ a < 0x80)
    (h : next (a :: s) = (some c, n)) : 128 ≤ c.toNat := by
  have hle (x y : UInt8) : x ≤ y ↔ x.toNat ≤ y.toNat := UInt8.le_iff_toNat_le
  rw [next.eq_def] at h
  simp only [if_neg ha] at h
  split_ifs at h with h2 h3 h4
  · rcases s with _ | ⟨b, s⟩
    · cases h
    simp only at h
    split_ifs at h with hb
    · cases h
      simp only [hle, isTail, decide_eq_true_eq, UInt8.reduceToNat] at h2 hb
      rw [toNat_ofNat_char] <;> unfold low6 <;> omega
    · cases h
  · rcases s with _ | ⟨b, _ | ⟨d, s⟩⟩
    · cases h
    · cases h
    simp only at h
    split_ifs at h with hb hd
    · cases h
      simp only [hle, isTail, inRange, secondRange, decide_eq_true_eq, UInt8.reduceToNat,
        ← UInt8.toNat_inj] at h3 hb hd
      rw [toNat_ofNat_char] <;> unfold low6 <;> split_ifs at hb <;> simp at hb <;> omega
    · cases h
    · cases h
  · rcases s with _ | ⟨b, _ | ⟨d, _ | ⟨e, s⟩⟩⟩
    · cases h
    · cases h
    · cases h
    simp only at h
    split_ifs at h with hb hd he
    · cases h
      simp only [hle, isTail, inRange, secondRange, decide_eq_true_eq, UInt8.reduceToNat,
        ← UInt8.toNat_inj] at h4 hb hd he
      rw [toNat_ofNat_char] <;> unfold low6 <;> split_ifs at hb <;> simp at hb <;> omega
    · cases h
    · cases h
    · cases h
  · cases h

/-- Reading the octets of a character gives it back. -/
theorem next_encode (c : Char) (s : List UInt8) :
    next (String.utf8EncodeChar c ++ s) = (some c, (String.utf8EncodeChar c).length) := by
  have hle (x y : UInt8) : x ≤ y ↔ x.toNat ≤ y.toNat := UInt8.le_iff_toNat_le
  have hlt (x y : UInt8) : x < y ↔ x.toNat < y.toNat := UInt8.lt_iff_toNat_lt
  have hof (n : ℕ) : (UInt8.ofNat n).toNat = n % 256 := UInt8.toNat_ofNat'
  have hvalid : c.val.toNat < 55296 ∨ 57344 ≤ c.val.toNat ∧ c.val.toNat < 1114112 := by
    rcases c.valid with h | ⟨h, h'⟩
    · exact Or.inl h
    · exact Or.inr ⟨by omega, h'⟩
  have hchar {n : ℕ} (h : n = c.val.toNat) : Char.ofNat n = c := by
    rw [h]
    exact Char.ofNat_toNat c
  unfold String.utf8EncodeChar
  generalize hv : c.val.toNat = v at hvalid hchar
  simp only
  split_ifs with h1 h2 h3
  · rw [List.singleton_append, next.eq_def]
    simp only [hlt, hof, UInt8.reduceToNat]
    rw [if_pos (by omega), hchar (by omega)]
    rfl
  · simp only [List.cons_append, List.nil_append, next, hlt, hle, hof, isTail, UInt8.reduceToNat,
      low6, decide_eq_true_eq]
    rw [if_neg (by omega), if_pos (by omega), if_pos (by omega), hchar (by omega)]
    rfl
  · have hsecond : inRange (secondRange (UInt8.ofNat (v / 4096 % 16 + 224)))
        (UInt8.ofNat (v / 64 % 64 + 128)) = true := by
      simp only [inRange, secondRange, decide_eq_true_eq, hle, ← UInt8.toNat_inj, hof,
        UInt8.reduceToNat]
      split_ifs <;> simp <;> omega
    simp only [List.cons_append, List.nil_append, next, hlt, hle, hof, isTail, UInt8.reduceToNat,
      low6, decide_eq_true_eq, hsecond, not_true, if_false]
    rw [if_neg (by omega), if_neg (by omega), if_pos (by omega), if_neg (by omega),
      hchar (by omega)]
    rfl
  · have hsecond : inRange (secondRange (UInt8.ofNat (v / 262144 % 8 + 240)))
        (UInt8.ofNat (v / 4096 % 64 + 128)) = true := by
      simp only [inRange, secondRange, decide_eq_true_eq, hle, ← UInt8.toNat_inj, hof,
        UInt8.reduceToNat]
      split_ifs <;> simp <;> omega
    simp only [List.cons_append, List.nil_append, next, hlt, hle, hof, isTail, UInt8.reduceToNat,
      low6, decide_eq_true_eq, hsecond, not_true, if_false]
    rw [if_neg (by omega), if_neg (by omega), if_neg (by omega), if_pos (by omega),
      if_neg (by omega), if_neg (by omega), hchar (by omega)]
    rfl

/-- The octet of an ASCII character. -/
def octet (c : Char) : UInt8 := UInt8.ofNat c.toNat

/-- A text whose octets are ASCII has one octet for each character. -/
theorem encode_eq_map_octet {s : String} (h : ∀ b ∈ encode s, b < 0x80) :
    encode s = s.toList.map octet ∧ ∀ c ∈ s.toList, c.toNat < 128 := by
  have hchar (c : Char) (hc : ∀ b ∈ String.utf8EncodeChar c, b < 0x80) :
      String.utf8EncodeChar c = [octet c] ∧ c.toNat < 128 := by
    by_cases hlt : c.toNat < 128
    · exact ⟨encode_char_of_lt hlt, hlt⟩
    · exfalso
      have hnext := next_encode c []
      cases hbytes : String.utf8EncodeChar c with
      | nil =>
        rw [hbytes] at hnext
        cases hnext
      | cons a rest =>
        have ha : a < 0x80 := hc a (by rw [hbytes]; exact List.mem_cons_self)
        rw [hbytes, List.append_nil, next.eq_def] at hnext
        simp only [if_pos ha, Prod.mk.injEq, Option.some.injEq] at hnext
        have hnat : a.toNat < 128 := UInt8.lt_iff_toNat_lt.1 ha
        rw [← hnext.1, toNat_ofNat_char (.inl (by omega))] at hlt
        exact hlt hnat
  unfold encode at h ⊢
  generalize s.toList = cs at h ⊢
  induction cs with
  | nil => exact ⟨rfl, by simp⟩
  | cons c cs ih =>
    rw [List.flatMap_cons] at h ⊢
    obtain ⟨hc, hlt⟩ := hchar c fun b hb => h b (List.mem_append_left _ hb)
    obtain ⟨hcs, hall⟩ := ih fun b hb => h b (List.mem_append_right _ hb)
    refine ⟨by rw [hc, hcs]; rfl, ?_⟩
    rintro d hd
    rcases List.mem_cons.1 hd with rfl | hd
    · exact hlt
    · exact hall d hd

/-- A text starts with ASCII characters exactly when its octets start with theirs. -/
theorem prefix_iff_of_decodeAux {fuel : ℕ} {s : List UInt8} {text mark : List Char}
    (h : decodeAux fuel s = some text) (hmark : ∀ c ∈ mark, c.toNat < 128) :
    mark <+: text ↔ mark.map octet <+: s := by
  induction mark generalizing fuel s text with
  | nil => simp
  | cons m mark ih =>
    have hm : m.toNat < 128 := hmark m List.mem_cons_self
    cases s with
    | nil =>
      have htext : text = [] := by
        cases fuel <;> simpa [decodeAux, eq_comm] using h
      simp [htext]
    | cons a s =>
      cases fuel with
      | zero => cases h
      | succ fuel =>
        rw [List.map_cons, List.cons_prefix_cons]
        unfold decodeAux at h
        by_cases ha : a < 0x80
        · have hnext : next (a :: s) = (some (Char.ofNat a.toNat), 1) := by
            rw [next.eq_def]
            simp only [if_pos ha]
          have hlt : a.toNat < 128 := UInt8.lt_iff_toNat_lt.1 ha
          have hoctet : m = Char.ofNat a.toNat ↔ octet m = a := by
            rw [← Char.toNat_inj, toNat_ofNat_char (by omega), ← UInt8.toNat_inj, octet,
              UInt8.toNat_ofNat_of_lt' (by simpa [UInt8.size] using by omega)]
          rw [hnext] at h
          obtain ⟨rest, hrest, rfl⟩ := Option.map_eq_some_iff.1 h
          rw [List.cons_prefix_cons, hoctet,
            ih hrest fun c hc => hmark c (List.mem_cons_of_mem _ hc)]
          simp
        · have hoctet : octet m ≠ a := by
            rintro rfl
            apply ha
            rw [UInt8.lt_iff_toNat_lt, octet,
              UInt8.toNat_ofNat_of_lt' (by simpa [UInt8.size] using by omega)]
            exact hm
          rcases hnext : next (a :: s) with ⟨_ | c, n⟩
          · rw [hnext] at h
            cases h
          · rw [hnext] at h
            obtain ⟨rest, -, rfl⟩ := Option.map_eq_some_iff.1 h
            have hc := next_ge ha hnext
            simp only [List.cons_prefix_cons, hoctet, false_and, iff_false, not_and]
            rintro rfl
            omega

end Utf8

namespace Base64

/-- The letters and digits, and the two last characters of an alphabet. -/
def alphabet (last : List Char) : List Char :=
  "ABCDEFGHIJKLMNOPQRSTUVWXYZabcdefghijklmnopqrstuvwxyz0123456789".toList ++ last

/-- The usual alphabet. -/
def standard : List Char := alphabet ['+', '/']

/-- The alphabet for URLs. -/
def urlSafe : List Char := alphabet ['-', '_']

/-- The letter of a number. -/
def letter (abc : List Char) (n : ℕ) : Char := abc.getD n '='

/-- Encode, with or without padding. -/
def encode (abc : List Char) (pad : Bool) : List UInt8 → List Char
  | [] => []
  | [a] =>
      [letter abc (a.toNat / 4), letter abc (a.toNat % 4 * 16)] ++ if pad then ['=', '='] else []
  | [a, b] =>
      [letter abc (a.toNat / 4), letter abc (a.toNat % 4 * 16 + b.toNat / 16),
        letter abc (b.toNat % 16 * 4)] ++ if pad then ['='] else []
  | a :: b :: c :: s =>
      letter abc (a.toNat / 4) :: letter abc (a.toNat % 4 * 16 + b.toNat / 16) ::
        letter abc (b.toNat % 16 * 4 + c.toNat / 64) :: letter abc (c.toNat % 64) ::
          encode abc pad s

/-- Only letters and the padding are written. -/
theorem mem_encode {abc : List Char} {pad : Bool} {s : List UInt8} {c : Char}
    (h : c ∈ encode abc pad s) : c ∈ abc ∨ c = '=' := by
  have hletter (n : ℕ) : letter abc n ∈ abc ∨ letter abc n = '=' := by
    unfold letter
    rw [List.getD_eq_getElem?_getD]
    cases hn : abc[n]? with
    | none => exact Or.inr rfl
    | some c => exact Or.inl (List.mem_of_getElem? hn)
  induction s using encode.induct with
  | case1 => cases h
  | case2 a =>
    simp only [encode, List.cons_append, List.nil_append, List.mem_cons, List.mem_ite_nil_right] at h
    rcases h with rfl | rfl | h
    · exact hletter _
    · exact hletter _
    · exact Or.inr (by simpa using h.2)
  | case3 a b =>
    simp only [encode, List.cons_append, List.nil_append, List.mem_cons, List.mem_ite_nil_right] at h
    rcases h with rfl | rfl | rfl | h
    · exact hletter _
    · exact hletter _
    · exact hletter _
    · exact Or.inr (by simpa using h.2)
  | case4 a b c' s ih =>
    simp only [encode, List.mem_cons] at h
    rcases h with rfl | rfl | rfl | rfl | h
    · exact hletter _
    · exact hletter _
    · exact hletter _
    · exact hletter _
    · exact ih h

/-- The value of a letter. -/
def sextet (abc : List Char) (c : Char) : Option ℕ :=
  if c ∈ abc then some (abc.idxOf c) else none

/-- Decode a text with canonical padding and no stray bits. -/
def decode (abc : List Char) : List Char → Option (List UInt8)
  | [] => some []
  | [a, b, '=', '='] => do
      let a ← sextet abc a
      let b ← sextet abc b
      if b % 16 ≠ 0 then none
      some [UInt8.ofNat (a * 4 + b / 16)]
  | [a, b, c, '='] => do
      let a ← sextet abc a
      let b ← sextet abc b
      let c ← sextet abc c
      if c % 4 ≠ 0 then none
      some [UInt8.ofNat (a * 4 + b / 16), UInt8.ofNat (b % 16 * 16 + c / 4)]
  | a :: b :: c :: d :: s => do
      let a ← sextet abc a
      let b ← sextet abc b
      let c ← sextet abc c
      let d ← sextet abc d
      let rest ← decode abc s
      some (UInt8.ofNat (a * 4 + b / 16) :: UInt8.ofNat (b % 16 * 16 + c / 4) ::
        UInt8.ofNat (c % 4 * 64 + d) :: rest)
  | _ => none

end Base64
