import EraseMe.Identity.ProfileJson
import EraseMe.Library.Utf8Text

/-!
# The canonical form of a profile

`canonicalGenericJson` writes a JSON value in ASCII, with the names of every object sorted.  For
values whose numbers are integers of at most 53 bits the text is read back as the same value, up to
the order of members, and that order makes no difference to the text; so the text tells profiles
apart, and the digest of it does unless two texts collide (`canonical_faithful`).

How a double with a fraction is written is left to a `FloatFormat`.
-/

namespace EraseMe.Identity.Secrets

open Json

/-! ### Numbers -/

/-- How Rust writes a double: `{}`, and `{:e}` as the text before the `e` and the exponent. -/
structure FloatFormat where
  display : ℤ × ℤ → List Char
  scientific : ℤ × ℤ → List Char × ℤ

/-- The double nearest to 0.0001. -/
def tenThousandth : ℤ × ℤ := (7378697629483821, -66)

/-- `value as i64`. -/
def asI64Saturating (x : ℤ × ℤ) : ℤ := max i64Min (min i64Max (truncate x))

/-- `{:02}`. -/
def twoDigits (n : ℕ) : List Char :=
  if n < 10 then '0' :: (toString n).toList else (toString n).toList

/-- A number in canonical form. -/
def writeCanonicalNumber (format : FloatFormat) (v : Json) : List Char :=
  match asF64 v with
  | none => []
  | some x =>
      if rational x = truncate x then (toString (asI64Saturating x)).toList
      else if |rational x| ≥ 1000000 ∨ |rational x| < rational tenThousandth then
        let (mantissa, exponent) := format.scientific x
        mantissa ++ 'e' :: (if exponent ≥ 0 then '+' else '-') :: twoDigits exponent.natAbs
      else format.display x

/-- The text of a value, with the names of every object sorted. -/
def canonicalGenericJson (format : FloatFormat) (v : Json) : List Char :=
  canonicalValue (writeCanonicalNumber format) (goMapOrder v)

/-- No number but an integer of at most 53 bits. -/
def ExactAtom : Json → Prop
  | .int n => -2 ^ 53 ≤ n ∧ n ≤ 2 ^ 53
  | .float _ _ => False
  | _ => True

theorem round53_of_le {n : ℕ} (h : n ≤ 2 ^ 53) : round53 n = n := by
  unfold round53
  split_ifs with hlt
  · rfl
  · obtain rfl : n = 2 ^ 53 := by omega
    decide

/-- An integer of at most 53 bits is written as it is. -/
theorem writeCanonicalNumber_int (format : FloatFormat) {n : ℤ} (h : -2 ^ 53 ≤ n ∧ n ≤ 2 ^ 53) :
    writeCanonicalNumber format (.int n) = (toString n).toList := by
  have hround : n.sign * (round53 n.natAbs : ℤ) = n := by
    rw [round53_of_le (by omega)]
    exact Int.sign_mul_natAbs n
  have hwhole : rational (n, 0) = truncate (n, 0) := by simp [rational, truncate]
  have hi64 : asI64Saturating (n, 0) = n := by
    simp only [asI64Saturating, truncate, i64Min, i64Max]
    simp only [le_refl, if_true, Int.toNat_zero, pow_zero, mul_one]
    omega
  unfold writeCanonicalNumber
  simp only [asF64, hround]
  rw [if_pos hwhole, hi64]

/-! ### Characters -/

theorem hexValue_digit {k : ℕ} (h : k < 16) : hexValue (Utf8.octet (Nat.digitChar k)) = some k := by
  interval_cases k <;> decide

theorem toNat_digit_lt {k : ℕ} (h : k < 16) : (Nat.digitChar k).toNat < 128 := by
  interval_cases k <;> decide

/-- A hexadecimal unit stands for its number. -/
theorem hexQuad_unicodeEscape {n : ℕ} (h : n < 65536) :
    ∃ a b d e, (unicodeEscape n).map Utf8.octet = [92, 117, a, b, d, e] ∧
      hexQuad [a, b, d, e] = some n := by
  refine ⟨_, _, _, _, rfl, ?_⟩
  have hdigits (k : ℕ) : hexValue (Utf8.octet (Nat.digitChar (k % 16))) = some (k % 16) :=
    hexValue_digit (Nat.mod_lt _ (by omega))
  simp only [hexQuad, hdigits, Option.bind_eq_bind, Option.bind_some, Option.some.injEq]
  omega

theorem ascii_unicodeEscape (n : ℕ) : ∀ d ∈ unicodeEscape n, d.toNat < 128 := by
  have hdigit (k : ℕ) : (Nat.digitChar (k % 16)).toNat < 128 :=
    toNat_digit_lt (Nat.mod_lt _ (by omega))
  simp only [unicodeEscape, List.forall_mem_cons]
  exact ⟨by decide, by decide, hdigit _, hdigit _, hdigit _, hdigit _, by simp⟩

theorem ascii_canonicalChar (c : Char) : ∀ d ∈ canonicalChar c, d.toNat < 128 := by
  unfold canonicalChar
  split_ifs with h1 h2 h3 h4 h5 h6 h7 h8 h9 h10
  iterate 7 decide
  · exact ascii_unicodeEscape _
  · simpa using h9
  · exact ascii_unicodeEscape _
  · intro d hd
    rcases List.mem_append.1 hd with hd | hd
    · exact ascii_unicodeEscape _ d hd
    · exact ascii_unicodeEscape _ d hd

/-- What is written for a character is read as it. -/
theorem charText_canonicalChar (c : Char) : CharText c ((canonicalChar c).map Utf8.octet) := by
  unfold canonicalChar
  split_ifs with h1 h2 h3 h4 h5 h6 h7 h8 h9 h10
  · exact .short (by rw [h1]; rfl)
  · exact .short (by rw [h2]; rfl)
  · exact .short (by rw [← Char.ofNat_toNat c, h3]; rfl)
  · exact .short (by rw [← Char.ofNat_toNat c, h4]; rfl)
  · exact .short (by rw [h5]; rfl)
  · exact .short (by rw [h6]; rfl)
  · exact .short (by rw [h7]; rfl)
  · obtain ⟨a, b, d, e, hunit, hquad⟩ := hexQuad_unicodeEscape (n := c.toNat) (by omega)
    rw [hunit]
    exact .unit hquad
  · have hplain : CharText c (String.utf8EncodeChar c) := .plain (by omega) h1 h2
    rwa [Utf8.encode_char_of_lt h9] at hplain
  · obtain ⟨a, b, d, e, hunit, hquad⟩ := hexQuad_unicodeEscape (n := c.toNat) (by omega)
    rw [hunit]
    exact .unit hquad
  · have hmax : c.toNat < 1114112 := by
      rcases c.valid with h | h
      · exact lt_trans h (by decide)
      · exact h.2
    have hbig : 65536 ≤ c.toNat := by omega
    obtain ⟨a, b, d, e, hunit, hquad⟩ :=
      hexQuad_unicodeEscape (n := 0xd800 + (c.toNat - 0x10000) / 1024) (by omega)
    obtain ⟨a', b', d', e', hunit', hquad'⟩ :=
      hexQuad_unicodeEscape (n := 0xdc00 + (c.toNat - 0x10000) % 1024) (by omega)
    rw [List.map_append, hunit, hunit']
    exact .pair hquad hquad' hbig rfl rfl

theorem ascii_canonicalString (text : String) : ∀ d ∈ canonicalString text, d.toNat < 128 := by
  intro d hd
  rcases List.mem_cons.1 hd with rfl | hd
  · decide
  rcases List.mem_append.1 hd with hd | hd
  · obtain ⟨c, -, hd⟩ := List.mem_flatMap.1 hd
    exact ascii_canonicalChar c d hd
  · rw [List.mem_singleton.1 hd]
    decide

theorem charsText_canonical (cs : List Char) :
    CharsText cs ((cs.flatMap canonicalChar).map Utf8.octet) := by
  induction cs with
  | nil => exact .nil
  | cons c cs ih =>
    rw [List.flatMap_cons, List.map_append]
    exact .cons (charText_canonicalChar c) ih

theorem stringText_canonicalString (text : String) :
    StringText text ((canonicalString text).map Utf8.octet) :=
  ⟨_, charsText_canonical text.toList, by rw [canonicalString, List.map_cons, List.map_append]; rfl⟩

/-! ### Integers -/

theorem toList_toString_nat (n : ℕ) : (toString n).toList = Nat.toDigits 10 n := by
  show (Nat.repr n).toList = _
  rw [Nat.repr, String.toList_ofList]

theorem map_octet_toString (n : ℤ) : (toString n).toList.map Utf8.octet = intText n := by
  cases n with
  | ofNat m =>
    show (toString m).toList.map Utf8.octet = _
    rw [toList_toString_nat, intText, if_neg (by simp)]
    rfl
  | negSucc m =>
    show ("-" ++ toString (m + 1)).toList.map Utf8.octet = _
    rw [String.toList_append, List.map_append, toList_toString_nat, intText,
      if_pos (Int.negSucc_lt_zero m)]
    rfl

theorem ascii_toString (n : ℤ) : ∀ d ∈ (toString n).toList, d.toNat < 128 := by
  have hdigits (m : ℕ) : ∀ d ∈ Nat.toDigits 10 m, d.toNat < 128 := by
    intro d hd
    have hdigit := Nat.isDigit_of_mem_toDigits (by decide) (by decide) hd
    have hle : d.toNat ≤ 57 := by
      simp only [Char.isDigit, Bool.and_eq_true, decide_eq_true_eq] at hdigit
      exact hdigit.2
    omega
  cases n with
  | ofNat m =>
    show ∀ d ∈ (toString m).toList, _
    rw [toList_toString_nat]
    exact hdigits m
  | negSucc m =>
    show ∀ d ∈ ("-" ++ toString (m + 1)).toList, _
    rw [String.toList_append, toList_toString_nat]
    intro d hd
    rcases List.mem_append.1 hd with hd | hd
    · rw [List.mem_singleton.1 hd]
      decide
    · exact hdigits _ d hd

/-! ### Values -/

section Value

variable (format : FloatFormat)

theorem octet_mark : Utf8.octet '[' = 91 ∧ Utf8.octet ']' = 93 ∧ Utf8.octet '\x7b' = 123 ∧
    Utf8.octet '\x7d' = 125 ∧ Utf8.octet ',' = 44 ∧ Utf8.octet ':' = 58 ∧ Utf8.octet ' ' = 32 := by
  decide

theorem blank_space : Blank [32] := by
  intro b hb
  rw [List.mem_singleton.1 hb]
  rfl

theorem machine_of_exact {n : ℤ} (h : -2 ^ 53 ≤ n ∧ n ≤ 2 ^ 53) : Machine n := by
  simp only [Machine, i64Min]
  omega

mutual

/-- What is written for a value is a text of it. -/
theorem text_canonicalValue : ∀ {v : Json}, Atoms ExactAtom v →
    Text v ((canonicalValue (writeCanonicalNumber format) v).map Utf8.octet)
  | .null, _ => by
      rw [canonicalValue, Text]
      decide
  | .bool b, _ => by
      rw [canonicalValue, Text]
      cases b <;> decide
  | .int n, h => by
      have hn : -2 ^ 53 ≤ n ∧ n ≤ 2 ^ 53 := by simpa only [Atoms, ExactAtom] using h
      rw [canonicalValue, Text, writeCanonicalNumber_int format hn, map_octet_toString]
      exact ⟨machine_of_exact hn, rfl⟩
  | .float m e, h => by simp only [Atoms, ExactAtom] at h
  | .string text, _ => by
      rw [canonicalValue, Text]
      exact stringText_canonicalString text
  | .array [], _ => by
      rw [canonicalValue, Text]
      exact ⟨[], by rw [Items]; exact blank_nil, rfl⟩
  | .array (v :: items), h => by
      rw [Atoms] at h
      rw [canonicalValue, Text]
      exact ⟨_, items_canonicalItems (v :: items) h (by simp) blank_nil, by simp [octet_mark]⟩
  | .object [], _ => by
      rw [canonicalValue, Text]
      exact ⟨[], by rw [Members]; exact blank_nil, rfl⟩
  | .object (f :: fields), h => by
      rw [Atoms] at h
      rw [canonicalValue, Text]
      exact ⟨_, members_canonicalMembers (f :: fields) h (by simp) blank_nil, by simp [octet_mark]⟩

/-- With the blank before the first item. -/
theorem items_canonicalItems : ∀ items : List Json, AtomsItems ExactAtom items → items ≠ [] →
    ∀ {w : Octets}, Blank w → Items items
      (w ++ (canonicalItems (writeCanonicalNumber format) items).map Utf8.octet)
  | [], _, hne, _, _ => absurd rfl hne
  | [v], h, _, w, hw => by
      rw [AtomsItems] at h
      rw [Items]
      refine ⟨w, _, [], hw, text_canonicalValue h.1, blank_nil, Or.inl ⟨rfl, ?_⟩⟩
      simp [canonicalItems]
  | v :: v' :: items, h, _, w, hw => by
      rw [AtomsItems] at h
      rw [Items]
      refine ⟨w, _, [], hw, text_canonicalValue h.1, blank_nil, Or.inr ⟨by simp, _,
        items_canonicalItems (v' :: items) h.2 (by simp) blank_space, ?_⟩⟩
      rw [canonicalItems, if_neg (by simp)]
      simp [octet_mark]

theorem members_canonicalMembers : ∀ fields : List (String × Json),
    AtomsMembers ExactAtom fields → fields ≠ [] → ∀ {w : Octets}, Blank w → Members fields
      (w ++ (canonicalMembers (writeCanonicalNumber format) fields).map Utf8.octet)
  | [], _, hne, _, _ => absurd rfl hne
  | [(key, v)], h, _, w, hw => by
      rw [AtomsMembers] at h
      rw [Members]
      refine ⟨w, _, [], [32], _, [], hw, stringText_canonicalString key, blank_nil, blank_space,
        text_canonicalValue h.1, blank_nil, Or.inl ⟨rfl, ?_⟩⟩
      simp [canonicalMembers, octet_mark]
  | (key, v) :: f :: fields, h, _, w, hw => by
      rw [AtomsMembers] at h
      rw [Members]
      refine ⟨w, _, [], [32], _, [], hw, stringText_canonicalString key, blank_nil, blank_space,
        text_canonicalValue h.1, blank_nil, Or.inr ⟨by simp, _,
          members_canonicalMembers (f :: fields) h.2 (by simp) blank_space, ?_⟩⟩
      rw [canonicalMembers, if_neg (by simp)]
      simp [octet_mark]

end

mutual

theorem ascii_canonicalValue : ∀ {v : Json}, Atoms ExactAtom v →
    ∀ d ∈ canonicalValue (writeCanonicalNumber format) v, d.toNat < 128
  | .null, _ => by
      rw [canonicalValue]
      decide
  | .bool b, _ => by
      rw [canonicalValue]
      cases b <;> decide
  | .int n, h => by
      have hn : -2 ^ 53 ≤ n ∧ n ≤ 2 ^ 53 := by simpa only [Atoms, ExactAtom] using h
      rw [canonicalValue, writeCanonicalNumber_int format hn]
      exact ascii_toString n
  | .float m e, h => by simp only [Atoms, ExactAtom] at h
  | .string text, _ => by
      rw [canonicalValue]
      exact ascii_canonicalString text
  | .array items, h => by
      rw [Atoms] at h
      rw [canonicalValue, List.forall_mem_cons, List.forall_mem_append]
      exact ⟨by decide, ascii_canonicalItems h, by decide⟩
  | .object fields, h => by
      rw [Atoms] at h
      rw [canonicalValue, List.forall_mem_cons, List.forall_mem_append]
      exact ⟨by decide, ascii_canonicalMembers h, by decide⟩

theorem ascii_canonicalItems : ∀ {items : List Json}, AtomsItems ExactAtom items →
    ∀ d ∈ canonicalItems (writeCanonicalNumber format) items, d.toNat < 128
  | [], _ => by simp [canonicalItems]
  | v :: items, h => by
      rw [AtomsItems] at h
      rw [canonicalItems, List.forall_mem_append]
      refine ⟨ascii_canonicalValue h.1, ?_⟩
      split_ifs
      · simp
      · rw [List.forall_mem_cons, List.forall_mem_cons]
        exact ⟨by decide, by decide, ascii_canonicalItems h.2⟩

theorem ascii_canonicalMembers :
    ∀ {fields : List (String × Json)}, AtomsMembers ExactAtom fields →
      ∀ d ∈ canonicalMembers (writeCanonicalNumber format) fields, d.toNat < 128
  | [], _ => by simp [canonicalMembers]
  | (key, v) :: fields, h => by
      rw [AtomsMembers] at h
      rw [canonicalMembers, List.forall_mem_append, List.forall_mem_cons, List.forall_mem_cons,
        List.forall_mem_append]
      refine ⟨ascii_canonicalString key, by decide, by decide, ascii_canonicalValue h.1, ?_⟩
      split_ifs
      · simp
      · rw [List.forall_mem_cons, List.forall_mem_cons]
        exact ⟨by decide, by decide, ascii_canonicalMembers h.2⟩

end

end Value

/-! ### Reading back -/

/-- The octets of a text. -/
def octets (text : List Char) : Bytes := Utf8.encode (String.ofList text)

theorem octets_of_ascii {text : List Char} (h : ∀ c ∈ text, c.toNat < 128) :
    octets text = text.map Utf8.octet := by
  induction text with
  | nil => rfl
  | cons c text ih =>
    rw [List.forall_mem_cons] at h
    have hrest := ih h.2
    simp only [octets, Utf8.encode, String.toList_ofList, List.flatMap_cons] at hrest ⊢
    rw [Utf8.encode_char_of_lt h.1, hrest]
    rfl

section Read

variable (format : FloatFormat) {v : Json}

theorem text_canonicalGenericJson (h : Atoms ExactAtom v) :
    Text (goMapOrder v) (octets (canonicalGenericJson format v)) := by
  have hatoms := atoms_goMapOrder h
  rw [canonicalGenericJson, octets_of_ascii (ascii_canonicalValue format hatoms)]
  exact text_canonicalValue format hatoms

/-- The text is read as the sorted value. -/
theorem read_canonicalGenericJson (h : Atoms ExactAtom v) :
    Json.read (octets (canonicalGenericJson format v)) = some (goMapOrder v) :=
  read_document ⟨[], _, [], blank_nil, text_canonicalGenericJson format h, blank_nil, by simp⟩

end Read

/-! ### Profiles -/

section Congr

variable {f g : Json → List Char}

mutual

/-- Where there are no numbers it does not matter how they are written. -/
theorem canonicalValue_congr : ∀ {v : Json}, Atoms (fun v => f v = g v) v →
    canonicalValue f v = canonicalValue g v
  | .null, _ => by rw [canonicalValue, canonicalValue]
  | .bool _, _ => by rw [canonicalValue, canonicalValue]
  | .int n, h => by
      simp only [Atoms] at h
      rw [canonicalValue, canonicalValue, h]
  | .float m e, h => by
      simp only [Atoms] at h
      rw [canonicalValue, canonicalValue, h]
  | .string _, _ => by rw [canonicalValue, canonicalValue]
  | .array items, h => by
      rw [Atoms] at h
      rw [canonicalValue, canonicalValue, canonicalItems_congr h]
  | .object fields, h => by
      rw [Atoms] at h
      rw [canonicalValue, canonicalValue, canonicalMembers_congr h]

theorem canonicalItems_congr : ∀ {items : List Json}, AtomsItems (fun v => f v = g v) items →
    canonicalItems f items = canonicalItems g items
  | [], _ => rfl
  | v :: items, h => by
      rw [AtomsItems] at h
      rw [canonicalItems, canonicalItems, canonicalValue_congr h.1, canonicalItems_congr h.2]

theorem canonicalMembers_congr :
    ∀ {fields : List (String × Json)}, AtomsMembers (fun v => f v = g v) fields →
      canonicalMembers f fields = canonicalMembers g fields
  | [], _ => rfl
  | (key, v) :: fields, h => by
      rw [AtomsMembers] at h
      rw [canonicalMembers, canonicalMembers, canonicalValue_congr h.1, canonicalMembers_congr h.2]

end

end Congr

section Payload

variable {p : Json → Prop} (hnull : p .null) (hstring : ∀ text, p (.string text))

include hnull hstring

theorem atoms_optionValue (o : Option String) : Atoms p (optionValue o) := by
  cases o with
  | none => simpa only [optionValue, Atoms] using hnull
  | some text => simpa only [optionValue, Atoms] using hstring text

theorem atoms_addressValue (address : ProfileAddress) : Atoms p (addressValue address) := by
  have hoption := atoms_optionValue hnull hstring
  simp only [addressValue, Atoms, AtomsMembers, hstring, hoption, and_self]

omit hnull in
theorem atoms_stringsValue (texts : List String) : Atoms p (stringsValue texts) := by
  rw [stringsValue, Atoms, atomsItems_iff]
  intro v hv
  obtain ⟨text, -, rfl⟩ := List.mem_map.1 hv
  simpa only [Atoms] using hstring text

/-- Nothing but texts and `null` in the payload of a profile. -/
theorem atoms_profileValue (profile : Profile) : Atoms p (profileValue profile) := by
  have hoption := atoms_optionValue hnull hstring
  have hstrings := atoms_stringsValue (p := p) hstring
  have haddresses : Atoms p (.array (profile.addresses.map addressValue)) := by
    rw [Atoms, atomsItems_iff]
    intro v hv
    obtain ⟨address, -, rfl⟩ := List.mem_map.1 hv
    exact atoms_addressValue hnull hstring address
  simp only [profileValue, Atoms, AtomsMembers, hstring, hoption, hstrings, and_true, true_and]
  simpa only [Atoms] using haddresses

end Payload

/-- The canonical form of a profile is that of its payload, however numbers are written. -/
theorem canonicalJson_eq (format : FloatFormat) (profile : Profile) :
    canonicalJson profile = canonicalGenericJson format (profileValue profile) :=
  canonicalValue_congr (atoms_goMapOrder (atoms_profileValue
    (p := fun v => [] = writeCanonicalNumber format v) rfl (fun _ => rfl) profile))

theorem goMapOrderItems_eq_map (items : List Json) : goMapOrderItems items = items.map goMapOrder := by
  induction items with
  | nil => rfl
  | cons v items ih => rw [goMapOrderItems, ih, List.map_cons]

/-- Sorted objects agree on every member. -/
theorem get_of_goMapOrder_eq {m m' : Map} (h : goMapOrder (.object m) = goMapOrder (.object m'))
    (key : String) : (m.get key).map goMapOrder = (m'.get key).map goMapOrder := by
  rw [goMapOrder_object, goMapOrder_object] at h
  rw [← get_sortedMap, ← get_sortedMap, Json.object.inj h]

theorem goMapOrder_string (text : String) : goMapOrder (.string text) = .string text :=
  goMapOrder_of_atom (by simp) (by simp)

theorem goMapOrder_optionValue (o : Option String) : goMapOrder (optionValue o) = optionValue o := by
  cases o with
  | none => exact goMapOrder_of_atom (by simp [optionValue]) (by simp [optionValue])
  | some text => exact goMapOrder_string text

theorem optionValue_injective : Function.Injective optionValue := by
  intro o o' h
  cases o <;> cases o' <;> simp_all [optionValue]

theorem stringsValue_injective : Function.Injective fun texts => goMapOrder (stringsValue texts) := by
  intro texts texts' h
  simp only [stringsValue, goMapOrder, goMapOrderItems_eq_map, List.map_map, Json.array.injEq] at h
  refine List.map_injective_iff.2 (fun a b hab => ?_) h
  simpa [goMapOrder_string] using hab

theorem addressValue_injective : Function.Injective fun a => goMapOrder (addressValue a) := by
  intro a b h
  have hget := get_of_goMapOrder_eq h
  obtain ⟨street, city, postalCode, country, state, validFrom, validTo⟩ := a
  obtain ⟨street', city', postalCode', country', state', validFrom', validTo'⟩ := b
  have h1 := hget "street"
  have h2 := hget "city"
  have h3 := hget "postal_code"
  have h4 := hget "country"
  have h5 := hget "state"
  have h6 := hget "valid_from"
  have h7 := hget "valid_to"
  simp [Map.get_cons, goMapOrder_string, goMapOrder_optionValue] at h1 h2 h3 h4 h5 h6 h7
  rw [h1, h2, h3, h4, optionValue_injective h5, optionValue_injective h6, optionValue_injective h7]

/-- The sorted payload determines the profile. -/
theorem profileValue_injective : Function.Injective fun p => goMapOrder (profileValue p) := by
  intro p q h
  have hget := get_of_goMapOrder_eq h
  obtain ⟨fullName, variants, birth, addresses, emails, phones, jurisdictions⟩ := p
  obtain ⟨fullName', variants', birth', addresses', emails', phones', jurisdictions'⟩ := q
  have h1 := hget "full_name"
  have h2 := hget "name_variants"
  have h3 := hget "date_of_birth"
  have h4 := hget "addresses"
  have h5 := hget "email_addresses"
  have h6 := hget "phone_numbers"
  have h7 := hget "jurisdictions"
  simp [Map.get_cons, goMapOrder_string, goMapOrder_optionValue] at h1 h2 h3 h4 h5 h6 h7
  have haddresses : addresses = addresses' := by
    simp only [goMapOrder, goMapOrderItems_eq_map, List.map_map, Json.array.injEq] at h4
    exact List.map_injective_iff.2 addressValue_injective h4
  rw [h1, stringsValue_injective h2, optionValue_injective h3, haddresses,
    stringsValue_injective h5, stringsValue_injective h6, stringsValue_injective h7]

/-- Profiles with one canonical form are one profile. -/
theorem canonicalJson_injective : Function.Injective canonicalJson := by
  intro p q h
  let format : FloatFormat := ⟨fun _ => [], fun _ => ([], 0)⟩
  have hread (profile : Profile) : Json.read (octets (canonicalJson profile)) =
      some (goMapOrder (profileValue profile)) := by
    rw [canonicalJson_eq format]
    exact read_canonicalGenericJson format
      (atoms_profileValue (p := ExactAtom) trivial (fun _ => trivial) profile)
  refine profileValue_injective (Option.some.inj ?_)
  rw [← hread p, ← hread q, h]

/-- Two profiles with one digest are a collision. -/
theorem collision_of_hashProfile_eq (sha256 : Bytes → Bytes) {p q : Profile} (hne : p ≠ q)
    (h : hashProfile sha256 p = hashProfile sha256 q) :
    octets (canonicalJson p) ≠ octets (canonicalJson q) ∧
      sha256 (octets (canonicalJson p)) = sha256 (octets (canonicalJson q)) := by
  constructor
  · intro heq
    have hdecode := congrArg Utf8.decode heq
    rw [octets, octets, Utf8.decode_encode, Utf8.decode_encode] at hdecode
    exact hne (canonicalJson_injective (Option.some.inj hdecode))
  · have hdigits := congrArg Hex.decode (String.ofList_injective h)
    rw [Hex.decode_encode, Hex.decode_encode] at hdigits
    exact Option.some.inj hdigits

/-- The canonical form is ASCII, is a text of the value that is read as it, and forgets the order of
members only; it tells profiles apart, and their digests do but for collisions. -/
theorem canonical_faithful (format : FloatFormat) (sha256 : Bytes → Bytes) :
    (∀ v, Distinct v → Atoms ExactAtom v →
      (∀ c ∈ canonicalGenericJson format v, c.toNat < 128) ∧
      (∃ w, Same v w ∧ Text w (octets (canonicalGenericJson format v)) ∧
        Json.read (octets (canonicalGenericJson format v)) = some w) ∧
      ∀ w, Same v w → canonicalGenericJson format w = canonicalGenericJson format v) ∧
    (∀ p q, canonicalJson p = canonicalJson q → p = q) ∧
    ∀ p q, p ≠ q → hashProfile sha256 p = hashProfile sha256 q →
      octets (canonicalJson p) ≠ octets (canonicalJson q) ∧
        sha256 (octets (canonicalJson p)) = sha256 (octets (canonicalJson q)) := by
  refine ⟨fun v hdistinct hexact => ⟨?_, ?_, fun w hsame => ?_⟩, fun p q h =>
    canonicalJson_injective h, fun p q hne h => collision_of_hashProfile_eq sha256 hne h⟩
  · exact ascii_canonicalValue format (atoms_goMapOrder hexact)
  · exact ⟨_, same_goMapOrder v, text_canonicalGenericJson format hexact,
      read_canonicalGenericJson format hexact⟩
  · rw [canonicalGenericJson, canonicalGenericJson, goMapOrder_eq_of_same hdistinct hsame]

/-- A value with members out of order, a character beyond the basic plane and the largest integer. -/
def mixedValue : Json :=
  .object [("b", .array [.int (-2 ^ 53), .null]), ("a", .string "\"😀")]

theorem canonical_faithful_mixedValue :
    canonicalGenericJson ⟨fun _ => [], fun _ => ([], 0)⟩ mixedValue =
        "\x7b\"a\": \"\\\"\\ud83d\\ude00\", \"b\": [-9007199254740992, null]\x7d".toList ∧
      ∃ w, Same mixedValue w ∧ Json.read (octets (canonicalGenericJson
        ⟨fun _ => [], fun _ => ([], 0)⟩ mixedValue)) = some w := by
  have hdistinct : Distinct mixedValue := by
    simp [mixedValue, Distinct, DistinctItems, DistinctMembers]
  have hexact : Atoms ExactAtom mixedValue := by
    simp [mixedValue, Atoms, AtomsItems, AtomsMembers, ExactAtom]
  obtain ⟨-, ⟨w, hsame, -, hread⟩, -⟩ :=
    (canonical_faithful ⟨fun _ => [], fun _ => ([], 0)⟩ id).1 mixedValue hdistinct hexact
  exact ⟨by decide +kernel, w, hsame, hread⟩

end EraseMe.Identity.Secrets
