import EraseMe.Library.BTreeMap
import EraseMe.Library.JsonMembers
import EraseMe.Migration.JsonScan

/-!
# What `migration::json` reads

`decode` walks along the tape of a document and fills in the fields of a state.  It does not leave
the tape, the document or a string, and what it makes of a document is what its tree says
(`decode_reads`): the members of an object are assigned in the order they come in, a key stands for
the field it names whatever the case of its letters, and the first member of the wrong type is the
error.
-/

namespace EraseMe.Migration

open Json (Bracket Entries Head Kind LooseChars LooseText Octets Quoted Space Token TokenText Tree
  said)
open Cursor (At)

/-- The fields in the order they are written. -/
structure State where
  version : Int64 := 0
  sourceRoot : String := ""
  destinationRoot : String := ""
  backupDir : String := ""
  items : Option (BTreeMap String String) := none
  deriving DecidableEq, Repr

/-- The name of a kind. -/
def tokenName : Kind → String
  | .object => "object"
  | .array => "array"
  | .string => "string"
  | .number => "number"
  | .bool => "bool"
  | .null => "null"

namespace Decode

/-! ### Strings -/

/-- `char::to_digit` -/
def toDigit (c : UInt8) : Checked ℕ :=
  match Json.hexValue c with
  | some n => .ok n
  | none => .error .panicked

/-- Four digits. -/
def hex4 (data : Octets) : Checked ℕ :=
  data.foldlM (fun n c => do return n * 16 + (← toDigit c)) 0

/-- `char::from_u32` with the mark where there is no such character. -/
def fromU32 (rune : ℕ) : Char :=
  if rune < 55296 ∨ 57344 ≤ rune ∧ rune < 1114112 then Char.ofNat rune else Utf8.replacement

/-- The character after `\u`, and what is left. -/
def unit (data : Octets) : Checked (Char × Octets) :=
  if data.length < 4 then .error .panicked
  else do
    let rune ← hex4 (data.take 4)
    let data := data.drop 4
    if (55296 ≤ rune ∧ rune ≤ 56319) ∧ data.take 2 = [92, 117] ∧ 6 ≤ data.length then
      let low ← hex4 ((data.drop 2).take 4)
      if 56320 ≤ low ∧ low ≤ 57343 then
        return (fromU32 (65536 + (rune - 55296) * 1024 + low - 56320), data.drop 6)
      else return (fromU32 rune, data)
    else return (fromU32 rune, data)

/-- The character after a backslash, and what is left. -/
def escape : Octets → Checked (Char × Octets)
  | [] => .error .panicked
  | c :: data =>
      if c = 98 then .ok (Char.ofNat 8, data)
      else if c = 102 then .ok (Char.ofNat 12, data)
      else if c = 110 then .ok ('\n', data)
      else if c = 114 then .ok ('\r', data)
      else if c = 116 then .ok ('\t', data)
      else if c = 117 then unit data
      else .ok (Char.ofNat c.toNat, data)

/-- How many octets a character has that starts with this one. -/
def size (c : UInt8) : ℕ :=
  if c ≤ 127 then 1
  else if 194 ≤ c ∧ c ≤ 223 then 2
  else if 224 ≤ c ∧ c ≤ 239 then 3
  else if 240 ≤ c ∧ c ≤ 244 then 4
  else 0

/-- The text at the start, and what is left. -/
def plain (c : UInt8) (data : Octets) : List Char × Octets :=
  let s := (c :: data).take (size c)
  let text := if 0 < size c ∧ size c ≤ (c :: data).length then Utf8.decode s else none
  match text with
  | some text => (text, (c :: data).drop (size c))
  | none => ([Utf8.replacement], data)

/-- The loop of a string, with a number of rounds. -/
def stringLoop : ℕ → Octets → Checked (List Char)
  | _, [] => .ok []
  | 0, _ => .error .diverged
  | fuel + 1, c :: data =>
      if c = 92 then do
        let (c, data) ← escape data
        return c :: (← stringLoop fuel data)
      else
        let (text, data) := plain c data
        do return text ++ (← stringLoop fuel data)

/-- `&data[start..stop]` -/
def slice (data : Octets) (start stop : ℕ) : Checked Octets :=
  if start ≤ stop ∧ stop ≤ data.length then .ok ((data.drop start).take (stop - start))
  else .error .panicked

/-- The text of a string. -/
def string (data : Octets) (token : Token) : Checked String := do
  let data ← slice data (token.start + 1) (token.stop - 1)
  return String.ofList (← stringLoop data.length data)

/-! ### Fields -/

/-- A name without case. -/
def fieldName (name : String) : String :=
  String.ofList (name.toList.map fun c =>
    if c = '\u017f' then 's' else if c = '\u212a' then 'k' else c.toLower)

/-- A value of a wrong type. -/
def typeError (kind : Kind) (field ty : String) : String :=
  "json: cannot unmarshal " ++ tokenName kind ++ " into Go struct field state." ++ field ++
    " of type " ++ ty

/-- Assign a text. -/
def assignString (data : Octets) (token : Token) (field : String) (out : String) :
    Checked String :=
  match token.kind with
  | .null => .ok out
  | .string => string data token
  | kind => .error (.error (typeError kind field "string"))

/-- `isize::from_str`, on machines of 64 bits. -/
def parseIsize (number : Octets) : Option Int64 :=
  let signed := number.head? = some 43 ∨ number.head? = some 45
  let ds := if signed then number.tail else number
  if ds ≠ [] ∧ ∀ d ∈ ds, Json.isDigit d = true then
    let n : ℕ := Nat.ofDigitChars 10 (ds.map fun d => Char.ofNat d.toNat) 0
    let n : ℤ := if number.head? = some 45 then -n else n
    if -2 ^ 63 ≤ n ∧ n < 2 ^ 63 then some (Int64.ofInt n) else none
  else none

/-- The number of a text of ASCII. -/
def intOf (number : Octets) (text : List Char) : Except String Int64 :=
  match parseIsize number with
  | some n => .ok n
  | none => .error ("json: cannot unmarshal number " ++ String.ofList text ++
      " into Go struct field state.version of type int")

/-- Assign an integer. -/
def assignInt (data : Octets) (token : Token) (out : Int64) : Checked Int64 :=
  match token.kind with
  | .null => .ok out
  | .number => do
      let number ← slice data token.start token.stop
      match Utf8.decode number with
      | some text => (intOf number text).mapError .error
      | none => .error .panicked
  | kind => .error (.error (typeError kind "version" "int"))

/-! ### The walk along the tape -/

/-- The loop over the members of an object, with a number of rounds.  What is done with a member
depends on its key and on the place of its value. -/
def eachMember {σ : Type} (data : Octets) (tokens : List Token)
    (assign : σ → String → ℕ → Token → Checked σ) (stop : ℕ) : ℕ → ℕ → σ → Checked σ
  | 0, _, _ => .error .diverged
  | fuel + 1, i, state =>
      if i < stop then
        match tokens[i]?, tokens[i + 1]? with
        | some key, some value => do
            let name ← string data key
            let state ← assign state name (i + 1) value
            eachMember data tokens assign stop fuel value.next state
        | _, _ => .error .panicked
      else .ok state

/-- Assign one item. -/
def assignItem (data : Octets) (items : BTreeMap String String) (key : String) (_ : ℕ)
    (token : Token) : Checked (BTreeMap String String) := do
  let item ← assignString data token "items" ""
  return items.insert key item

/-- Assign all items. -/
def assignItems (data : Octets) (tokens : List Token) (index : ℕ) (token : Token)
    (items : Option (BTreeMap String String)) : Checked (Option (BTreeMap String String)) :=
  match token.kind with
  | .null => .ok none
  | .object => do
      let items ← eachMember data tokens (assignItem data) token.next (tokens.length + 1)
        (index + 1) (items.getD .empty)
      return some items
  | kind => .error (.error (typeError kind "items" "map[string]string"))

/-- Assign a field. -/
def assignField (data : Octets) (tokens : List Token) (marker : Bool) (state : State)
    (name : String) (index : ℕ) (token : Token) : Checked State := do
  let field := fieldName name
  if field = "version" then
    return { state with version := ← assignInt data token state.version }
  else if field = "source" ∧ marker then
    return { state with sourceRoot := ← assignString data token "source" state.sourceRoot }
  else if field = "source_root" ∧ !marker then
    return { state with sourceRoot := ← assignString data token "source_root" state.sourceRoot }
  else if field = "destination_root" ∧ !marker then
    return { state with
      destinationRoot := ← assignString data token "destination_root" state.destinationRoot }
  else if field = "backup_dir" ∧ !marker then
    return { state with backupDir := ← assignString data token "backup_dir" state.backupDir }
  else if field = "items" ∧ !marker then
    return { state with items := ← assignItems data tokens index token state.items }
  else return state

/-- Decode a document. -/
def decode (data : Octets) (marker : Bool) : Checked State := do
  let tokens ← scan data
  match tokens[0]? with
  | none => .error .panicked
  | some token =>
      match token.kind with
      | .null => return {}
      | .object =>
          eachMember data tokens (assignField data tokens marker) token.next (tokens.length + 1) 1 {}
      | kind => .error (.error ("json: cannot unmarshal " ++ tokenName kind ++
          " into Go value of type migration.state"))

end Decode

/-- Decode a state. -/
def state (data : Octets) : Checked State := Decode.decode data false

/-- The marker is of this source. -/
def markerMatches (data : Octets) (source : String) : Checked Bool :=
  match Decode.decode data true with
  | .ok state => .ok (state.version = 1 ∧ state.sourceRoot = source)
  | .error (.error _) => .ok false
  | .error fault => .error fault

/-! ### What a string reads as -/

namespace Decode

section Strings

variable {data s : Octets} {a b d e : UInt8} {n : ℕ} {c : Char} {cs : List Char}

theorem hex4_quad (h : Json.hexQuad [a, b, d, e] = some n) : hex4 [a, b, d, e] = .ok n := by
  simp only [Json.hexQuad, Option.bind_eq_bind, Option.bind_eq_some_iff, Option.some.injEq] at h
  obtain ⟨i, hi, j, hj, k, hk, l, hl, rfl⟩ := h
  simp only [hex4, toDigit, List.foldlM_cons, List.foldlM_nil, hi, hj, hk, hl]
  show Except.ok ((((0 * 16 + i) * 16 + j) * 16 + k) * 16 + l) = _
  rw [Nat.zero_mul, Nat.zero_add]

theorem fromU32_toNat (c : Char) : fromU32 c.toNat = c := by
  have hvalid : c.toNat < 55296 ∨ 57344 ≤ c.toNat ∧ c.toNat < 1114112 := by
    rcases c.valid with h | ⟨h, h'⟩
    · exact Or.inl h
    · exact Or.inr ⟨h, h'⟩
  rw [fromU32, if_pos hvalid, Char.ofNat_toNat]

theorem fromU32_surrogate (hn : 55296 ≤ n ∧ n < 57344) : fromU32 n = Utf8.replacement :=
  if_neg (by omega)

/-- An escape of four digits that is not gone on with. -/
theorem unit_alone (h : Json.hexQuad [a, b, d, e] = some n)
    (hnext : 55296 ≤ n ∧ n < 56320 → s.take 2 ≠ [92, 117]) :
    unit (a :: b :: d :: e :: s) = .ok (fromU32 n, s) := by
  rw [unit, if_neg (by simp)]
  simp only [List.take_succ_cons, List.take_zero, List.drop_succ_cons, List.drop_zero, hex4_quad h]
  show (if (55296 ≤ n ∧ n ≤ 56319) ∧ s.take 2 = [92, 117] ∧ 6 ≤ s.length then _ else _) = _
  rw [if_neg fun hhigh => hnext ⟨hhigh.1.1, by omega⟩ hhigh.2.1]
  rfl

theorem unit_followed {a' b' d' e' : UInt8} {low : ℕ} (h : Json.hexQuad [a, b, d, e] = some n)
    (hn : 55296 ≤ n ∧ n < 56320) (hlow : Json.hexQuad [a', b', d', e'] = some low) :
    unit (a :: b :: d :: e :: 92 :: 117 :: a' :: b' :: d' :: e' :: s) =
      if 56320 ≤ low ∧ low ≤ 57343 then
        .ok (fromU32 (65536 + (n - 55296) * 1024 + low - 56320), s)
      else .ok (fromU32 n, 92 :: 117 :: a' :: b' :: d' :: e' :: s) := by
  rw [unit, if_neg (by simp)]
  simp only [List.take_succ_cons, List.take_zero, List.drop_succ_cons, List.drop_zero, hex4_quad h]
  show (if (55296 ≤ n ∧ n ≤ 56319) ∧ _ ∧ _ then _ else _) = _
  rw [if_pos ⟨⟨hn.1, by omega⟩, by simp, by simp⟩, hex4_quad hlow]
  show (if 56320 ≤ low ∧ low ≤ 57343 then _ else _) = _
  split_ifs <;> rfl

/-- In a string the letter of an escape of four digits is followed by them. -/
theorem exists_hexQuad_of_chars (h : LooseChars cs (92 :: 117 :: s)) :
    ∃ a b d e r n, s = a :: b :: d :: e :: r ∧ Json.hexQuad [a, b, d, e] = some n := by
  generalize ht : 92 :: 117 :: s = t at h
  cases h with
  | nil => cases ht
  | @char c t cs r hchar hr =>
    cases hchar with
    | plain hcontrol hquote hbackslash =>
      obtain ⟨b, tail, hb, -, -, hne, -⟩ := Json.encode_plain hcontrol hquote hbackslash
      rw [hb] at ht
      exact absurd (List.cons.inj ht).1.symm hne
    | short he =>
      cases ht
      cases he
    | unit hn =>
      cases ht
      exact ⟨_, _, _, _, _, _, rfl, hn⟩
    | pair hn =>
      cases ht
      exact ⟨_, _, _, _, _, _, rfl, hn⟩
  | octet hb =>
    cases ht
    exact absurd (by decide) hb
  | surrogate hn =>
    cases ht
    exact ⟨_, _, _, _, _, _, rfl, hn⟩

/-- A surrogate without a partner. -/
theorem unit_surrogate (h : Json.hexQuad [a, b, d, e] = some n) (hn : 55296 ≤ n ∧ n < 57344)
    (halone : n < 56320 → Json.lowSurrogate s = none) (hs : LooseChars cs s) :
    unit (a :: b :: d :: e :: s) = .ok (Utf8.replacement, s) := by
  rw [← fromU32_surrogate hn]
  by_cases hnext : (55296 ≤ n ∧ n < 56320) ∧ s.take 2 = [92, 117]
  · -- another escape follows, which is no second half
    obtain ⟨hhigh, htake⟩ := hnext
    obtain ⟨r, rfl⟩ : ∃ r, s = 92 :: 117 :: r := by
      match s, htake with
      | x :: y :: r, htake =>
        cases htake
        exact ⟨r, rfl⟩
    obtain ⟨a', b', d', e', r, low, rfl, hlow⟩ := exists_hexQuad_of_chars hs
    have hno := halone hhigh.2
    have hquad : Json.hexQuad (a' :: b' :: d' :: e' :: r) = some low := hlow
    rw [Json.lowSurrogate, if_pos ⟨rfl, rfl⟩, hquad, Option.filter_eq_none_iff] at hno
    have hlow' := hno low rfl
    simp only [decide_eq_true_eq] at hlow'
    rw [unit_followed h hhigh hlow, if_neg (by omega)]
  · exact unit_alone h fun hhigh htake => hnext ⟨hhigh, htake⟩

theorem escape_short (h : Json.shortEscape e = some c) : escape (e :: s) = .ok (c, s) := by
  unfold Json.shortEscape at h
  split_ifs at h with h1 h2 h3 h4 h5 h6 h7 h8 <;> subst_vars <;> cases h <;> rfl

theorem escape_unit : escape (117 :: s) = unit s := rfl

theorem size_of_next (h : Utf8.next (b :: s) = (some c, n)) : size b = n := by
  have hle (x y : UInt8) : x ≤ y ↔ x.toNat ≤ y.toNat := UInt8.le_iff_toNat_le
  have hlt (x y : UInt8) : x < y ↔ x.toNat < y.toNat := UInt8.lt_iff_toNat_lt
  rw [Utf8.next.eq_def] at h
  simp only [hle, hlt, UInt8.reduceToNat] at h
  unfold size
  simp only [hle, UInt8.reduceToNat]
  -- both ask for the first octet's range in the same order
  split_ifs at h with h1 h2 h3 h4
  · cases h
    rw [if_pos (by omega)]
  · rcases s with _ | ⟨x, s⟩
    · cases h
    · simp only at h
      split_ifs at h
      · cases h
        rw [if_neg (by omega), if_pos h2]
      · cases h
  · rcases s with _ | ⟨x, _ | ⟨y, s⟩⟩
    · cases h
    · cases h
    · simp only at h
      split_ifs at h
      · cases h
        rw [if_neg (by omega), if_neg h2, if_pos h3]
      · cases h
      · cases h
  · rcases s with _ | ⟨x, _ | ⟨y, _ | ⟨z, s⟩⟩⟩
    · cases h
    · cases h
    · cases h
    · simp only at h
      split_ifs at h
      · cases h
        rw [if_neg (by omega), if_neg h2, if_neg h3, if_pos h4]
      · cases h
      · cases h
      · cases h
  · cases h

/-- A character outside of escapes. -/
theorem plain_encode {t : Octets} (h : String.utf8EncodeChar c = b :: t) :
    plain b (t ++ s) = ([c], s) := by
  have hnext := Utf8.next_encode c s
  rw [h, List.cons_append] at hnext
  have hsize := size_of_next hnext
  have htake : (b :: (t ++ s)).take (size b) = String.utf8EncodeChar c := by
    rw [hsize, ← List.cons_append, List.take_left, h]
  have hdrop : (b :: (t ++ s)).drop (size b) = s := by
    rw [hsize, ← List.cons_append, List.drop_left]
  have hdecode : Utf8.decode (String.utf8EncodeChar c) = some [c] := by
    have hchar := Utf8.decode_encode [c]
    rwa [show Utf8.encode (String.ofList [c]) = String.utf8EncodeChar c by
      rw [Utf8.encode_ofList_cons]; exact List.append_nil _] at hchar
  rw [plain, htake, hdrop, hdecode, if_pos]
  rw [hsize]
  simp

/-- An octet that starts no character. -/
theorem plain_octet (hnext : (Utf8.next (b :: s)).1 = none) :
    plain b s = ([Utf8.replacement], s) := by
  rw [plain]
  split_ifs with hsize
  · have hnone : Utf8.decode ((b :: s).take (size b)) = none := by
      obtain ⟨k, hk⟩ : ∃ k, size b = k + 1 := ⟨size b - 1, by omega⟩
      rw [hk, List.take_succ_cons, Utf8.decode, List.length_cons, Utf8.decodeAux_cons]
      rcases hprefix : Utf8.next (b :: s.take k) with ⟨_ | c, n⟩
      · rfl
      · -- a character that the cut text starts with, the whole text starts with as well
        exfalso
        have hencode := Utf8.encode_of_next hprefix
        have hwhole : b :: s = String.utf8EncodeChar c ++
            ((b :: s.take k).drop n ++ s.drop k) := by
          rw [← List.append_assoc, ← hencode, List.cons_append, List.take_append_drop]
        rw [hwhole, Utf8.next_encode] at hnext
        cases hnext
    rw [hnone]
  · rfl

theorem stringLoop_escape {fuel : ℕ} {r : Octets} (h : escape s = .ok (c, r)) :
    stringLoop (fuel + 1) (92 :: s) = (do return c :: (← stringLoop fuel r)) := by
  rw [stringLoop, if_pos rfl, h]
  rfl

theorem stringLoop_plain {fuel : ℕ} {text : List Char} {r : Octets} (hb : b ≠ 92)
    (h : plain b s = (text, r)) :
    stringLoop (fuel + 1) (b :: s) = (do return text ++ (← stringLoop fuel r)) := by
  rw [stringLoop, if_neg hb, h]

/-- A string reads as the characters it is a text of. -/
theorem stringLoop_chars (h : LooseChars cs s) : ∀ {fuel : ℕ}, s.length ≤ fuel →
    stringLoop fuel s = .ok cs := by
  -- the loop takes one part of the text a round, and no part is empty
  induction h with
  | nil =>
    intro fuel _
    cases fuel <;> rfl
  | @char c t cs s hchar _ ih =>
    intro fuel hfuel
    rw [List.length_append] at hfuel
    cases hchar with
    | plain hcontrol hquote hbackslash =>
      obtain ⟨b, tail, hb, -, -, hne, -⟩ := Json.encode_plain hcontrol hquote hbackslash
      rw [hb, List.length_cons] at hfuel
      obtain ⟨fuel, rfl⟩ : ∃ k, fuel = k + 1 := ⟨fuel - 1, by omega⟩
      rw [hb, List.cons_append, stringLoop_plain hne (plain_encode hb), ih (by omega)]
      rfl
    | short he =>
      simp only [List.length_cons, List.length_nil] at hfuel
      obtain ⟨fuel, rfl⟩ : ∃ k, fuel = k + 1 := ⟨fuel - 1, by omega⟩
      rw [List.cons_append, List.cons_append, List.nil_append,
        stringLoop_escape (escape_short he), ih (by omega)]
      rfl
    | unit hn =>
      simp only [List.length_cons, List.length_nil] at hfuel
      obtain ⟨fuel, rfl⟩ : ∃ k, fuel = k + 1 := ⟨fuel - 1, by omega⟩
      have hunit := unit_alone (s := s) hn fun hhigh => by
        rcases c.valid with hvalid | ⟨hvalid, -⟩
        · exact absurd hhigh.1 (not_le.2 hvalid)
        · exact absurd hvalid (by have := hhigh.2; exact not_lt.2 (by change c.toNat ≤ _; omega))
      rw [fromU32_toNat] at hunit
      simp only [List.cons_append, List.nil_append]
      rw [stringLoop_escape (escape_unit.trans hunit), ih (by omega)]
      rfl
    | @pair _ _ _ _ _ _ _ _ high low hhigh hlow hc hhigh' hlow' =>
      simp only [List.length_cons, List.length_nil] at hfuel
      obtain ⟨fuel, rfl⟩ : ∃ k, fuel = k + 1 := ⟨fuel - 1, by omega⟩
      have hmax : c.toNat < 1114112 := by
        rcases c.valid with hvalid | ⟨-, hvalid⟩
        · exact lt_trans hvalid (by decide)
        · exact hvalid
      have hunit := unit_followed (s := s) hhigh (by omega) hlow
      have hpair : 65536 + (high - 55296) * 1024 + low - 56320 = c.toNat := by omega
      rw [if_pos (by omega), hpair, fromU32_toNat] at hunit
      simp only [List.cons_append, List.nil_append]
      rw [stringLoop_escape (escape_unit.trans hunit), ih (by omega)]
      rfl
  | @octet b cs s hb hnext _ ih =>
    intro fuel hfuel
    rw [List.length_cons] at hfuel
    obtain ⟨fuel, rfl⟩ : ∃ k, fuel = k + 1 := ⟨fuel - 1, by omega⟩
    have hne : b ≠ 92 := by
      rintro rfl
      exact hb (by decide)
    rw [stringLoop_plain hne (plain_octet hnext), ih (by omega)]
    rfl
  | @surrogate a b d e n cs s hn hrange halone hs ih =>
    intro fuel hfuel
    simp only [List.length_cons] at hfuel
    obtain ⟨fuel, rfl⟩ : ∃ k, fuel = k + 1 := ⟨fuel - 1, by omega⟩
    rw [stringLoop_escape (escape_unit.trans (unit_surrogate hn hrange halone hs)), ih (by omega)]
    rfl

end Strings

/-! ### Slices -/

section Slices

variable {data s r : Octets} {pos n : ℕ}

theorem slice_at (h : At data pos (s ++ r)) : slice data pos (pos + s.length) = .ok s := by
  have hlength := h.add_length
  rw [List.length_append] at hlength
  rw [slice, if_pos ⟨by omega, by omega⟩, ← h.eq_drop, Nat.add_sub_cancel_left, List.take_left]

/-- A string token reads as what it says. -/
theorem string_said {text : String} (htext : LooseText text s) (h : At data pos (s ++ r)) :
    string data ⟨.string, pos, pos + s.length, n⟩ = .ok text := by
  obtain ⟨body, hbody, rfl⟩ := htext
  have hslice : slice data (pos + 1) (pos + (34 :: (body ++ [34])).length - 1) = .ok body := by
    have hinner : At data (pos + 1) (body ++ ([34] ++ r)) := by
      rw [← List.append_assoc]
      exact h.cons
    have hstop : pos + (34 :: (body ++ [34])).length - 1 = pos + 1 + body.length := by
      simp only [List.length_cons, List.length_append, List.length_nil]
      omega
    rw [hstop]
    exact slice_at hinner
  rw [string]
  simp only [hslice]
  show (do return String.ofList (← stringLoop body.length body) : Checked String) = _
  rw [stringLoop_chars hbody le_rfl]
  show Except.ok (String.ofList text.toList) = _
  rw [String.ofList_toList]

/-- A string says one text only. -/
theorem said_eq {text : String} (h : LooseText text s) : said s = text := by
  have hepsilon : LooseText (said s) s :=
    Classical.epsilon_spec (p := fun text => LooseText text s) ⟨text, h⟩
  have hat : At s 0 (s ++ []) := by
    rw [List.append_nil]
    exact Cursor.at_zero s
  have hboth := (string_said (n := 0) hepsilon hat).symm.trans (string_said h hat)
  exact Except.ok.inj hboth

theorem decode_number (h : Json.NumberText s) :
    Utf8.decode s = some (s.map fun b => Char.ofNat b.toNat) := by
  have hascii : ∀ b ∈ s, b.toNat < 128 := by
    intro b hb
    have hnumber := Json.isNumberOctet_of_mem h hb
    simp only [Json.isNumberOctet, Json.isDigit, Bool.or_eq_true, decide_eq_true_eq,
      UInt8.le_iff_toNat_le, ← UInt8.toNat_inj, UInt8.reduceToNat] at hnumber
    omega
  have hchar : ∀ b ∈ s, (Char.ofNat b.toNat).toNat = b.toNat := fun b hb =>
    Utf8.toNat_ofNat_char (Or.inl (lt_trans (hascii b hb) (by decide)))
  have hencode : Utf8.encode (String.ofList (s.map fun b => Char.ofNat b.toNat)) = s := by
    rw [Utf8.encode_of_ascii, List.map_map]
    · refine (List.map_congr_left fun b hb => ?_).trans (List.map_id s)
      rw [Function.comp_apply, Utf8.octet, hchar b hb, UInt8.ofNat_toNat]
      rfl
    · intro c hc
      obtain ⟨b, hb, rfl⟩ := List.mem_map.1 hc
      rw [hchar b hb]
      exact hascii b hb
  have hdecode := Utf8.decode_encode (s.map fun b => Char.ofNat b.toNat)
  rwa [hencode] at hdecode

end Slices

/-! ### What a document says of the fields -/

/-- What a member makes of a field that is a string. -/
noncomputable def stringFrom (field out : String) (value : Tree) : Except String String :=
  match value.kind with
  | .null => .ok out
  | .string => .ok (said value.octets)
  | kind => .error (typeError kind field "string")

/-- An integer, from the tree. -/
noncomputable def intFrom (out : Int64) (value : Tree) : Except String Int64 :=
  match value.kind with
  | .null => .ok out
  | .number => intOf value.octets (value.octets.map fun b => Char.ofNat b.toNat)
  | kind => .error (typeError kind "version" "int")

/-- What members make of a value, one after the other. -/
noncomputable def membersFrom {σ : Type} (f : σ → String → Tree → Except String σ)
    (members : List (Quoted × Tree)) (state : σ) : Except String σ :=
  members.foldlM (fun state member => f state (said member.1.text) member.2) state

/-- One item, from the tree. -/
noncomputable def itemFrom (items : BTreeMap String String) (key : String) (value : Tree) :
    Except String (BTreeMap String String) := do
  let item ← stringFrom "items" "" value
  return items.insert key item

/-- The items, from the tree. -/
noncomputable def itemsFrom (items : Option (BTreeMap String String)) (value : Tree) :
    Except String (Option (BTreeMap String String)) :=
  match value.kind with
  | .null => .ok none
  | .object => some <$> membersFrom itemFrom value.members (items.getD .empty)
  | kind => .error (typeError kind "items" "map[string]string")

/-- A marker has the source under a name of its own, and nothing but that and the version. -/
noncomputable def fieldFrom (marker : Bool) (state : State) (name : String) (value : Tree) :
    Except String State := do
  let field := fieldName name
  if field = "version" then
    return { state with version := ← intFrom state.version value }
  else if field = "source" ∧ marker then
    return { state with sourceRoot := ← stringFrom "source" state.sourceRoot value }
  else if field = "source_root" ∧ !marker then
    return { state with sourceRoot := ← stringFrom "source_root" state.sourceRoot value }
  else if field = "destination_root" ∧ !marker then
    return { state with
      destinationRoot := ← stringFrom "destination_root" state.destinationRoot value }
  else if field = "backup_dir" ∧ !marker then
    return { state with backupDir := ← stringFrom "backup_dir" state.backupDir value }
  else if field = "items" ∧ !marker then
    return { state with items := ← itemsFrom state.items value }
  else return state

/-- A state, from its tree. -/
noncomputable def stateFrom (marker : Bool) (tree : Tree) : Except String State :=
  match tree.kind with
  | .null => .ok {}
  | .object => membersFrom (fieldFrom marker) tree.members {}
  | kind => .error ("json: cannot unmarshal " ++ tokenName kind ++
      " into Go value of type migration.state")

/-! ### The walk follows the tree -/

/-- With the faults of a call. -/
def lift {α : Type} (x : Except String α) : Checked α := x.mapError .error

@[simp] theorem lift_ok {α : Type} (a : α) : lift (.ok a) = .ok a := rfl

@[simp] theorem lift_error {α : Type} (message : String) :
    lift (.error message : Except String α) = .error (.error message) := rfl

@[simp] theorem lift_pure {α : Type} (a : α) : lift (pure a) = pure a := rfl

@[simp] theorem lift_bind {α β : Type} (x : Except String α) (f : α → Except String β) :
    lift (x >>= f) = lift x >>= fun a => lift (f a) := by
  cases x <;> rfl

theorem lift_map {α β : Type} (x : Except String α) (f : α → β) :
    lift (f <$> x) = lift x >>= fun a => pure (f a) := by
  cases x <;> rfl

section Walk

variable {σ : Type} {data r : Octets} {tokens rest : List Token} {pos index i fuel stop : ℕ}

/-- The token of a value. -/
theorem token_at {value : Tree} (h : At tokens index (value.tape pos index ++ rest)) :
    tokens[index]? = some ⟨value.kind, pos, pos + value.octets.length,
      index + (value.tape pos index).length⟩ := by
  obtain ⟨inner, htape⟩ := Json.exists_tape value pos index
  have hhead : (value.tape pos index ++ rest).head? = (value.tape pos index).head? := by
    rw [htape]
    rfl
  rw [h.getElem?, hhead, htape, List.head?_cons, ← htape]

theorem leaf_valid {value : Tree} (h : value.kind ≠ .object) (h' : value.kind ≠ .array) :
    TokenText value.kind value.octets := by
  cases value with
  | leaf token => exact token.valid
  | empty bracket space => cases bracket <;> simp [Tree.kind, Bracket.kind] at h h'
  | node bracket entries => cases bracket <;> simp [Tree.kind, Bracket.kind] at h h'

theorem assignString_tree {value : Tree} (hdata : At data pos (value.octets ++ r))
    (field out : String) (n : ℕ) :
    assignString data ⟨value.kind, pos, pos + value.octets.length, n⟩ field out =
      lift (stringFrom field out value) := by
  rw [assignString, stringFrom]
  cases hkind : value.kind with
  | string =>
    have hvalid : TokenText value.kind value.octets :=
      leaf_valid (by simp [hkind]) (by simp [hkind])
    rw [hkind] at hvalid
    exact string_said (Json.said_spec hvalid) hdata
  | _ => rfl

theorem assignInt_tree {value : Tree} (hdata : At data pos (value.octets ++ r)) (out : Int64)
    (n : ℕ) : assignInt data ⟨value.kind, pos, pos + value.octets.length, n⟩ out =
      lift (intFrom out value) := by
  rw [assignInt, intFrom]
  cases hkind : value.kind with
  | number =>
    have hvalid : TokenText value.kind value.octets :=
      leaf_valid (by simp [hkind]) (by simp [hkind])
    rw [hkind] at hvalid
    cases hvalid with
    | number hnumber =>
      simp only [slice_at hdata]
      show (match Utf8.decode value.octets with
        | some text => (intOf value.octets text).mapError .error
        | none => .error .panicked : Checked Int64) = _
      rw [decode_number hnumber]
      rfl
  | _ => rfl

/-- What is done with a member is what the member makes of the value, wherever it is. -/
def Follows (data : Octets) (tokens : List Token) (assign : σ → String → ℕ → Token → Checked σ)
    (f : σ → String → Tree → Except String σ) : Prop :=
  ∀ (value : Tree) {pos index : ℕ} {r : Octets} {rest : List Token},
    At data pos (value.octets ++ r) → At tokens index (value.tape pos index ++ rest) →
      ∀ state name, assign state name index ⟨value.kind, pos, pos + value.octets.length,
        index + (value.tape pos index).length⟩ = lift (f state name value)

variable {assign : σ → String → ℕ → Token → Checked σ} {f : σ → String → Tree → Except String σ}

theorem eachMember_stop (state : σ) :
    eachMember data tokens assign stop (fuel + 1) stop state = .ok state := by
  rw [eachMember, if_neg (lt_irrefl stop)]

/-- One member. -/
theorem eachMember_member (hassign : Follows data tokens assign f) (head : Head .object)
    (value : Tree) (hdata : At data pos (head.octets ++ (value.octets ++ r)))
    (htokens : At tokens i (head.tape pos i ++
      (value.tape (pos + head.octets.length) (i + 1) ++ rest)))
    (hi : i < stop) (state : σ) :
    eachMember data tokens assign stop (fuel + 1) i state = lift (f state (said head.key.text) value)
      >>= eachMember data tokens assign stop fuel
        (i + 1 + (value.tape (pos + head.octets.length) (i + 1)).length) := by
  cases head with
  | member before key colon between =>
    have hvalue := htokens.cons
    have hkeytext : At data (pos + before.octets.length)
        (key.text ++ ((colon.octets ++ 58 :: between.octets) ++ (value.octets ++ r))) := by
      have hall := hdata
      simp only [Head.octets, List.append_assoc] at hall
      have happend := hall.append
      rwa [List.append_assoc]
    rw [eachMember, if_pos hi, htokens.getElem?, token_at hvalue]
    simp only [Head.tape, List.cons_append, List.head?_cons]
    rw [string_said (Json.said_spec key.valid) hkeytext]
    show (assign state (said key.text) (i + 1) _ >>= _) = _
    rw [hassign value hdata.append hvalue state (said key.text)]
    rfl

theorem length_tape_head (head : Head .object) (pos i : ℕ) : (head.tape pos i).length = 1 := by
  cases head with
  | member before key colon between => rfl

/-- All the members of an object. -/
theorem eachMember_entries (hassign : Follows data tokens assign f) :
    ∀ (entries : Entries .object) {pos i fuel : ℕ} {r : Octets} {rest : List Token} (state : σ),
      At data pos (entries.octets ++ r) → At tokens i (entries.tape pos i ++ rest) →
        (entries.tape pos i).length < fuel →
          eachMember data tokens assign (i + (entries.tape pos i).length) fuel i state =
            lift (membersFrom f (entries.items.map fun item => (item.1.key, item.2)) state)
  | .last head value after, pos, i, fuel, r, rest, state, hdata, htokens, hfuel => by
    have hkey := length_tape_head head pos i
    rw [Entries.tape] at htokens hfuel ⊢
    simp only [hkey, List.length_append, List.append_assoc] at htokens hfuel ⊢
    rw [Entries.octets, List.append_assoc, List.append_assoc] at hdata
    obtain ⟨fuel, rfl⟩ : ∃ k, fuel = k + 2 := ⟨fuel - 2, by
      obtain ⟨inner, htape⟩ := Json.exists_tape value (pos + head.octets.length) (i + 1)
      rw [htape, List.length_cons] at hfuel
      omega⟩
    rw [eachMember_member hassign head value hdata htokens (by omega)]
    simp only [membersFrom, Entries.items, List.map_cons, List.map_nil, List.foldlM_cons, List.foldlM_nil,
      lift_bind, lift_pure, ← Nat.add_assoc]
    congr 1
    funext state
    exact eachMember_stop state
  | .more head value after rest', pos, i, fuel, r, rest, state, hdata, htokens, hfuel => by
    have hkey := length_tape_head head pos i
    rw [Entries.tape] at htokens hfuel ⊢
    simp only [hkey, List.length_append, List.append_assoc] at htokens hfuel ⊢
    rw [Entries.octets, List.append_assoc, List.append_assoc, List.append_assoc,
      List.cons_append] at hdata
    obtain ⟨fuel, rfl⟩ : ∃ k, fuel = k + 1 := ⟨fuel - 1, by omega⟩
    have hrest : At data (pos + (head.octets.length + (value.octets.length +
        (after.octets.length + 1)))) (rest'.octets ++ r) := by
      have happend := hdata.append.append.append.cons
      simpa only [Nat.add_assoc] using happend
    have htape := htokens.append.append
    rw [hkey, Nat.add_assoc] at htape
    rw [eachMember_member hassign head value hdata htokens (by omega)]
    simp only [membersFrom, Entries.items, List.map_cons, List.foldlM_cons, lift_bind]
    congr 1
    funext state
    have hloop := eachMember_entries hassign rest' state hrest htape
      (show _ < fuel by omega)
    simpa only [Nat.add_assoc, membersFrom] using hloop

/-- The members of a value that is an object. -/
theorem eachMember_tree (hassign : Follows data tokens assign f) {value : Tree}
    (hkind : value.kind = .object) (hdata : At data pos (value.octets ++ r))
    (htokens : At tokens index (value.tape pos index ++ rest)) (state : σ) :
    eachMember data tokens assign (index + (value.tape pos index).length) (tokens.length + 1)
      (index + 1) state = lift (membersFrom f value.members state) := by
  have hlength := htokens.add_length
  rw [List.length_append] at hlength
  cases value with
  | leaf token =>
    have hvalid := token.valid
    rw [show token.kind = .object from hkind] at hvalid
    cases hvalid
  | empty bracket space =>
    rw [Tree.tape, List.length_singleton, eachMember_stop]
    cases bracket <;> rfl
  | node bracket entries =>
    cases bracket with
    | array => cases hkind
    | object =>
      rw [Tree.tape] at htokens hlength ⊢
      simp only [List.length_cons, Tree.octets, List.cons_append, List.append_assoc] at *
      have hinner := eachMember_entries hassign entries state hdata.cons htokens.cons
        (show _ < tokens.length + 1 by omega)
      rw [show index + ((entries.tape (pos + 1) (index + 1)).length + 1) =
        index + 1 + (entries.tape (pos + 1) (index + 1)).length by omega]
      exact hinner

theorem follows_item : Follows data tokens (assignItem data) itemFrom := by
  intro value pos index r rest hdata _ items key
  rw [assignItem, assignString_tree hdata, itemFrom, lift_bind]
  rfl

theorem assignItems_tree {value : Tree} (hdata : At data pos (value.octets ++ r))
    (htokens : At tokens index (value.tape pos index ++ rest))
    (items : Option (BTreeMap String String)) :
    assignItems data tokens index ⟨value.kind, pos, pos + value.octets.length,
      index + (value.tape pos index).length⟩ items = lift (itemsFrom items value) := by
  rw [assignItems, itemsFrom]
  cases hkind : value.kind with
  | object =>
    simp only [eachMember_tree follows_item hkind hdata htokens, lift_map]
  | _ => rfl

theorem follows_field (marker : Bool) :
    Follows data tokens (assignField data tokens marker) (fieldFrom marker) := by
  intro value pos index r rest hdata htokens state name
  rw [assignField, fieldFrom]
  simp only [assignInt_tree hdata, assignString_tree hdata, assignItems_tree hdata htokens]
  split_ifs <;> simp only [lift_bind, lift_pure]

end Walk

/-- What is decoded is what the tree of the document says. -/
theorem decode_tree {data : Octets} (w : Space) (tree : Tree) (w' : Space)
    (hdata : data = w.octets ++ (tree.octets ++ w'.octets)) (hdepth : tree.depth ≤ maxDepth)
    (marker : Bool) : decode data marker = lift (stateFrom marker tree) := by
  have hscan := (scan_eq_ok_iff data _).2 ⟨w, tree, w', hdata, hdepth, rfl⟩
  have hat : At data w.octets.length (tree.octets ++ w'.octets) := hdata ▸ Cursor.at_append _ _
  have htokens : At (tree.tape w.octets.length 0) 0 (tree.tape w.octets.length 0 ++ []) := by
    rw [List.append_nil]
    exact Cursor.at_zero _
  have hmembers (hkind : tree.kind = .object) :=
    eachMember_tree (follows_field marker) hkind hat htokens {}
  rw [decode, hscan, stateFrom]
  show (match (tree.tape w.octets.length 0)[0]? with
    | none => _
    | some token => _) = _
  rw [token_at htokens]
  cases hkind : tree.kind with
  | object =>
    exact hmembers hkind
  | _ => rfl

end Decode

/-- Decoding never leaves the tape, the document or a string, and always ends.  A text that is not
JSON is refused with the message of the scanner; of any other, the state is what its members make of
it one after the other. -/
theorem decode_reads (data : Octets) (marker : Bool) :
    (∃ message, scan data = .error (.error message) ∧
      Decode.decode data marker = .error (.error message)) ∨
    ∃ (w : Space) (tree : Tree) (w' : Space), data = w.octets ++ (tree.octets ++ w'.octets) ∧
      tree.depth ≤ maxDepth ∧
        Decode.decode data marker = (Decode.stateFrom marker tree).mapError .error := by
  rcases scan_ends data with ⟨tape, htape⟩ | ⟨message, hmessage⟩
  · obtain ⟨w, tree, w', hdata, hdepth, -⟩ := (scan_eq_ok_iff data tape).1 htape
    exact Or.inr ⟨w, tree, w', hdata, hdepth, Decode.decode_tree w tree w' hdata hdepth marker⟩
  · refine Or.inl ⟨message, hmessage, ?_⟩
    rw [Decode.decode, hmessage]
    rfl

/-- The scanner ends on every input.  It takes the texts of one value whose brackets nest at most ten
thousand deep, with their tapes, and no reading of a tape leaves it or the document. -/
theorem scan_accepts (data : Octets) :
    ((∃ tape, scan data = .ok tape) ∨ ∃ message, scan data = .error (.error message)) ∧
      (∀ tape, scan data = .ok tape ↔ ∃ (w : Space) (tree : Tree) (w' : Space),
        data = w.octets ++ (tree.octets ++ w'.octets) ∧ tree.depth ≤ maxDepth ∧
          tape = tree.tape w.octets.length 0) ∧
      ∀ marker, Decode.decode data marker ≠ .error .panicked := by
  refine ⟨scan_ends data, scan_eq_ok_iff data, fun marker hpanicked => ?_⟩
  rcases scan_ends data with ⟨tape, htape⟩ | ⟨message, hmessage⟩
  · obtain ⟨w, tree, w', hdata, hdepth, -⟩ := (scan_eq_ok_iff data tape).1 htape
    rw [Decode.decode_tree w tree w' hdata hdepth marker] at hpanicked
    cases hstate : Decode.stateFrom marker tree with
    | ok state => cases hstate ▸ hpanicked
    | error message => cases hstate ▸ hpanicked
  · rw [Decode.decode, hmessage] at hpanicked
    cases hpanicked

end EraseMe.Migration
