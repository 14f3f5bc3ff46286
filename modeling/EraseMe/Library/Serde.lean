import EraseMe.Library.BTreeMap
import EraseMe.Library.Json
import EraseMe.Library.Result
import Mathlib.Data.String.Basic

/-!
# Decoding YAML values

The values of `serde_yaml` and what derived decoders make of them: an enumeration is a text, a
structure is a mapping whose keys are visited in order, and every field decodes where its key
stands.  `Yaml.ofJson` is the value of plain JSON data; for each decoder there is a lemma on what
plain data it accepts.
-/

/-- A double. -/
inductive F64
  | finite (mantissa exponent : ℤ)
  | infinite (negative : Bool)
  | nan
  deriving DecidableEq, Repr

namespace F64

/-- Neither infinite nor NaN. -/
def isFinite : F64 → Bool
  | finite _ _ => true
  | _ => false

/-- `x < n`, for a small integer `n`. -/
def lt (x : F64) (n : ℤ) : Bool :=
  match x with
  | finite mantissa exponent =>
      if 0 ≤ exponent then mantissa * 2 ^ exponent.toNat < n
      else mantissa < n * 2 ^ (-exponent).toNat
  | infinite negative => negative
  | nan => false

/-- `x ≤ n`, for a small integer `n`. -/
def le (x : F64) (n : ℤ) : Bool :=
  match x with
  | finite mantissa exponent =>
      if 0 ≤ exponent then mantissa * 2 ^ exponent.toNat ≤ n
      else mantissa ≤ n * 2 ^ (-exponent).toNat
  | infinite negative => negative
  | nan => false

/-- The double nearest to an integer. -/
def ofInt (n : ℤ) : F64 := finite (n.sign * Json.round53 n.natAbs) 0

end F64

/-- A value; a tag is without its mark. -/
inductive Yaml
  | null
  | bool (b : Bool)
  | int (n : ℤ)
  | float (x : F64)
  | string (s : String)
  | sequence (items : List Yaml)
  | mapping (entries : List (Yaml × Yaml))
  | tagged (tag : String) (value : Yaml)

namespace Yaml

mutual

/-- Plain JSON data as a YAML value. -/
def ofJson : Json → Yaml
  | .null => .null
  | .bool b => .bool b
  | .int n => .int n
  | .float mantissa exponent => .float (.finite mantissa exponent)
  | .string s => .string s
  | .array items => .sequence (ofItems items)
  | .object fields => .mapping (ofFields fields)

/-- The items as YAML. -/
def ofItems : List Json → List Yaml
  | [] => []
  | v :: items => ofJson v :: ofItems items

/-- The members as YAML. -/
def ofFields : List (String × Json) → List (Yaml × Yaml)
  | [] => []
  | (name, v) :: fields => (.string name, ofJson v) :: ofFields fields

end

mutual

/-- How many nodes a value has, keys included. -/
def nodes : Yaml → ℕ
  | .sequence items => nodesItems items + 1
  | .mapping entries => nodesEntries entries + 1
  | .tagged _ value => nodes value + 1
  | _ => 1

/-- The nodes of the items. -/
def nodesItems : List Yaml → ℕ
  | [] => 0
  | v :: items => nodes v + nodesItems items

/-- The nodes of the entries. -/
def nodesEntries : List (Yaml × Yaml) → ℕ
  | [] => 0
  | (key, v) :: entries => nodes key + nodes v + nodesEntries entries

end

/-- `Mapping::get` with a text. -/
def get (entries : List (Yaml × Yaml)) (name : String) : Option Yaml :=
  entries.findSome? fun entry =>
    match entry with
    | (.string key, value) => if key = name then some value else none
    | _ => none

/-- The value below its tags. -/
def untag : Yaml → Yaml
  | .tagged _ value => untag value
  | value => value

/-- The text of a scalar. -/
def asStr (v : Yaml) : Option String :=
  match v.untag with
  | .string s => some s
  | _ => none

/-- The items of a sequence. -/
def asSequence (v : Yaml) : Option (List Yaml) :=
  match v.untag with
  | .sequence items => some items
  | _ => none

/-- The entries of a mapping. -/
def asMapping (v : Yaml) : Option (List (Yaml × Yaml)) :=
  match v.untag with
  | .mapping entries => some entries
  | _ => none

end Yaml

namespace Serde

/-! ### Decoders -/

/-- Why a value is refused. -/
inductive DecodeError
  | invalidType (found : Yaml) (expected : String)
  | invalidValue (found : Yaml) (expected : String)
  | unknownVariant (name : String) (expected : List String)
  | unknownField (name : String) (expected : List String)
  | missingField (name : String)
  | duplicateField (name : String)
  | custom (message : String)

/-- A reader of values. -/
abbrev Decoder (α : Type) := Yaml → Except DecodeError α

variable {α : Type}

/-- Read a text. -/
def string : Decoder String := fun v =>
  match v.untag with
  | .string s => .ok s
  | other => .error (.invalidType other "a string")

/-- Read a boolean. -/
def bool : Decoder Bool := fun v =>
  match v.untag with
  | .bool b => .ok b
  | other => .error (.invalidType other "a boolean")

/-- An unsigned integer of some bits. -/
def unsigned (bits : ℕ) : Decoder (Fin (2 ^ bits)) := fun v =>
  match v.untag with
  | .int n =>
      if h : 0 ≤ n ∧ n < 2 ^ bits then
        .ok ⟨n.toNat, by zify; rw [Int.toNat_of_nonneg h.1]; exact h.2⟩
      else .error (.invalidValue (.int n) s!"u{bits}")
  | other => .error (.invalidType other s!"u{bits}")

/-- Read a number. -/
def f64 : Decoder F64 := fun v =>
  match v.untag with
  | .int n => .ok (.ofInt n)
  | .float x => .ok x
  | other => .error (.invalidType other "f64")

/-- `null` is an empty sequence. -/
def sequence (item : Decoder α) : Decoder (List α) := fun v =>
  match v.untag with
  | .sequence items => items.mapM item
  | .null => .ok []
  | other => .error (.invalidType other "a sequence")

/-- A unit variant by its name. -/
def variant (names : List (String × α)) : Decoder α := fun v =>
  let find (name : String) : Except DecodeError α :=
    match names.lookup name with
    | some a => .ok a
    | none => .error (.unknownVariant name (names.map (·.1)))
  match v with
  | .string s => find s
  | .tagged tag value =>
      match find tag, value with
      | .ok a, .null => .ok a
      | .error error, _ => .error error
      | .ok _, other => .error (.invalidType other "unit")
  | other => .error (.invalidType other "a Value::Tag enum")

/-- The entries of a map from texts to texts; a later entry replaces an earlier one. -/
def visitMap : List (Yaml × Yaml) → BTreeMap String String →
    Except DecodeError (BTreeMap String String)
  | [], m => .ok m
  | (key, value) :: rest, m => do
      let key ← string key
      let value ← string value
      visitMap rest (m.alter key fun _ => value)

/-- Read a mapping of texts. -/
def stringMap : Decoder (BTreeMap String String) := fun v =>
  match v.untag with
  | .mapping entries => visitMap entries .empty
  | .null => .ok .empty
  | other => .error (.invalidType other "a map")

/-- `reject_null_option`: a field that is there has a value. -/
def option (value : Decoder α) : Decoder (Option α) := fun v =>
  match v with
  | .null => .error (.custom "explicit YAML null is not allowed")
  | v => (value v).map some

/-! ### Structures -/

/-- A field and whether its value decodes. -/
abbrev Field := String × (Yaml → Except DecodeError Unit)

/-- A field and its reader. -/
def field (name : String) (value : Decoder α) : Field := (name, fun v => (value v).map fun _ => ())

/-- The visitor of a structure without unknown fields, with the fields seen so far. -/
def visit (fields : List Field) : List (Yaml × Yaml) → List (String × Yaml) →
    Except DecodeError (List (String × Yaml))
  | [], seen => .ok seen
  | (key, value) :: rest, seen => do
      let name ← string key
      match fields.lookup name with
      | none => .error (.unknownField name (fields.map (·.1)))
      | some decode =>
          if name ∈ seen.map (·.1) then .error (.duplicateField name)
          else do
            decode value
            visit fields rest (seen ++ [(name, value)])

/-- The fields of a structure, by name. -/
def struct (fields : List Field) : Decoder (List (String × Yaml)) := fun v =>
  match v.untag with
  | .mapping entries => visit fields entries []
  | .null => .ok []
  | other => .error (.invalidType other "a struct")

/-- A field that must be there. -/
def required (name : String) (value : Decoder α) (seen : List (String × Yaml)) :
    Except DecodeError α :=
  match seen.lookup name with
  | some v => value v
  | none => .error (.missingField name)

/-- A field with `#[serde(default)]`. -/
def withDefault (default : α) (name : String) (value : Decoder α) (seen : List (String × Yaml)) :
    Except DecodeError α :=
  match seen.lookup name with
  | some v => value v
  | none => .ok default

/-- An optional field that is not null. -/
def optional (name : String) (value : Decoder α) (seen : List (String × Yaml)) :
    Except DecodeError (Option α) :=
  withDefault none name (option value) seen

/-! ### Plain data -/

section Plain

open Yaml

variable {v : Json} {a : α}

@[simp] theorem untag_ofJson (v : Json) : (ofJson v).untag = ofJson v := by
  cases v with
  | null => rfl
  | bool b => rfl
  | int n => rfl
  | float m e => rfl
  | string s => rfl
  | array items => rfl
  | object fields => rfl

theorem ofItems_eq_map (items : List Json) : ofItems items = items.map ofJson := by
  induction items with
  | nil => rfl
  | cons v items ih => rw [ofItems, ih, List.map_cons]

theorem string_ofJson {s : String} (h : string (ofJson v) = .ok s) : v = .string s := by
  rw [string, untag_ofJson] at h
  cases v with
  | string t =>
    cases h
    rfl
  | null | bool | int | float | array | object => cases h

theorem bool_ofJson {b : Bool} (h : bool (ofJson v) = .ok b) : v = .bool b := by
  rw [bool, untag_ofJson] at h
  cases v with
  | bool t =>
    cases h
    rfl
  | null | string | int | float | array | object => cases h

theorem unsigned_ofJson {bits : ℕ} {n : Fin (2 ^ bits)} (h : unsigned bits (ofJson v) = .ok n) :
    v = .int n := by
  rw [unsigned, untag_ofJson] at h
  cases v with
  | int m =>
    simp only [ofJson] at h
    split_ifs at h with hm
    cases h
    rw [Int.toNat_of_nonneg hm.1]
  | null | string | bool | float | array | object => cases h

theorem f64_ofJson {x : F64} (h : f64 (ofJson v) = .ok x) :
    (∃ n, v = .int n ∧ x = .ofInt n) ∨
      ∃ mantissa exponent, v = .float mantissa exponent ∧ x = .finite mantissa exponent := by
  rw [f64, untag_ofJson] at h
  cases v with
  | int n =>
    cases h
    exact .inl ⟨n, rfl, rfl⟩
  | float mantissa exponent =>
    cases h
    exact .inr ⟨mantissa, exponent, rfl, rfl⟩
  | null | string | bool | array | object => cases h

theorem variant_ofJson {names : List (String × α)} (h : variant names (ofJson v) = .ok a) :
    ∃ s, v = .string s ∧ names.lookup s = some a := by
  cases v with
  | string s =>
    refine ⟨s, rfl, ?_⟩
    simp only [variant, ofJson] at h
    cases hs : names.lookup s with
    | none => simp [hs] at h
    | some b =>
      simp only [hs] at h
      cases h
      rfl
  | null | bool | int | float | array | object => cases h

/-- What an optional field has is not null. -/
theorem option_ofJson {value : Decoder α} {x : Option α} (h : option value (ofJson v) = .ok x) :
    v ≠ .null ∧ ∃ a, x = some a ∧ value (ofJson v) = .ok a := by
  have hsome : v ≠ .null ∧ (value (ofJson v)).map some = .ok x := by
    cases v with
    | null => cases h
    | bool | int | float | string | array | object => exact ⟨nofun, h⟩
  obtain ⟨hnull, hsome⟩ := hsome
  refine ⟨hnull, ?_⟩
  cases hvalue : value (ofJson v) with
  | ok a =>
    rw [hvalue] at hsome
    cases hsome
    exact ⟨a, rfl, rfl⟩
  | error error =>
    rw [hvalue] at hsome
    cases hsome

theorem sequence_ofJson {item : Decoder α} {as : List α}
    (h : sequence item (ofJson v) = .ok as) :
    v = .null ∧ as = [] ∨
      ∃ vs, v = .array vs ∧ List.Forall₂ (fun v a => item (ofJson v) = .ok a) vs as := by
  rw [sequence, untag_ofJson] at h
  cases v with
  | null =>
    cases h
    exact .inl ⟨rfl, rfl⟩
  | array vs =>
    simp only [ofJson, ofItems_eq_map] at h
    exact .inr ⟨vs, rfl, List.forall₂_map_left_iff.1 (Result.mapM_eq_ok.1 h)⟩
  | bool | int | float | string | object => cases h

/-- Every value is a text, and every name is a key of the map. -/
theorem visitMap_ofFields {fields : List (String × Json)} {m m' : BTreeMap String String}
    (h : visitMap (ofFields fields) m = .ok m') :
    (∀ f ∈ fields, ∃ s, f.2 = .string s) ∧
      (∀ entry ∈ m.entries, ∃ s, (entry.1, s) ∈ m'.entries) ∧
        ∀ f ∈ fields, ∃ s, (f.1, s) ∈ m'.entries := by
  induction fields generalizing m with
  | nil =>
    cases h
    exact ⟨by simp, fun entry hentry => ⟨entry.2, hentry⟩, by simp⟩
  | cons f fields ih =>
    obtain ⟨key, hkey, h⟩ := Result.bind_eq_ok.1 h
    obtain ⟨text, htext, h⟩ := Result.bind_eq_ok.1 h
    cases hkey
    have hstring := string_ofJson htext
    obtain ⟨htexts, hkept, hkeys⟩ := ih h
    -- an entry stays, perhaps with another value
    have hmem (name : String) : (∃ s, (name, s) ∈ m.entries) ∨ name = f.1 →
        ∃ s, (name, s) ∈ m'.entries := by
      rintro (⟨s, hs⟩ | rfl)
      · by_cases hname : name = f.1
        · subst hname
          exact hkept (f.1, text) (BTreeMap.mem_alter.2 (.inl rfl))
        · exact hkept (name, s) (BTreeMap.mem_alter.2 (.inr ⟨hs, hname⟩))
      · exact hkept (f.1, text) (BTreeMap.mem_alter.2 (.inl rfl))
    refine ⟨?_, fun entry hentry => hmem _ (.inl ⟨entry.2, hentry⟩), ?_⟩
    · rintro g hg
      rcases List.mem_cons.1 hg with rfl | hg
      · exact ⟨text, hstring⟩
      · exact htexts g hg
    · rintro g hg
      rcases List.mem_cons.1 hg with rfl | hg
      · exact hmem _ (.inr rfl)
      · exact hkeys g hg

theorem stringMap_ofJson {m : BTreeMap String String} (h : stringMap (ofJson v) = .ok m) :
    v = .null ∨ ∃ fields, v = .object fields ∧ (∀ f ∈ fields, ∃ s, f.2 = .string s) ∧
      ∀ f ∈ fields, ∃ s, (f.1, s) ∈ m.entries := by
  rw [stringMap, untag_ofJson] at h
  cases v with
  | null => exact .inl rfl
  | object fields =>
    obtain ⟨htexts, -, hkeys⟩ := visitMap_ofFields h
    exact .inr ⟨fields, rfl, htexts, hkeys⟩
  | bool | int | float | string | array => cases h

end Plain

/-! ### Fields of plain data -/

section Fields

open Yaml

theorem mem_of_lookup {β : Type} {l : List (String × β)} {name : String} {b : β}
    (h : l.lookup name = some b) : (name, b) ∈ l := by
  obtain ⟨l₁, l₂, rfl, -⟩ := List.lookup_eq_some_iff.1 h
  simp

theorem lookup_of_mem {β : Type} {l : List (String × β)} {name : String} {b : β}
    (hl : (l.map (·.1)).Nodup) (h : (name, b) ∈ l) : l.lookup name = some b := by
  induction l with
  | nil => cases h
  | cons entry l ih =>
    rw [List.map_cons, List.nodup_cons] at hl
    rcases List.mem_cons.1 h with rfl | h
    · exact List.lookup_cons_self
    · have hne : name ≠ entry.1 := by
        rintro rfl
        exact hl.1 (List.mem_map.2 ⟨_, h, rfl⟩)
      rw [List.lookup_cons, beq_eq_false_iff_ne.2 hne]
      exact ih hl.2 h

/-- What a visitor has seen of an object: all its members, no two of one name. -/
structure Seen (members : List (String × Json)) (seen : List (String × Yaml)) : Prop where
  eq : seen = members.map fun f => (f.1, ofJson f.2)
  nodup : (members.map (·.1)).Nodup

variable {members : List (String × Json)} {seen : List (String × Yaml)} {fields : List Field}
  {name : String} {value : Decoder α} {v : Json} {a : α} {x : Option α}

theorem visit_ofFields {done : List (String × Json)}
    (hdone : (done.map (·.1)).Nodup)
    (h : visit fields (ofFields members) (done.map fun f => (f.1, ofJson f.2)) = .ok seen) :
    Seen (done ++ members) seen ∧ ∀ f ∈ members, f.1 ∈ fields.map (·.1) := by
  induction members generalizing done with
  | nil =>
    cases h
    exact ⟨⟨by rw [List.append_nil], by rwa [List.append_nil]⟩, by simp⟩
  | cons f members ih =>
    rw [ofFields, visit] at h
    obtain ⟨key, hkey, h⟩ := Result.bind_eq_ok.1 h
    cases hkey
    cases hfield : fields.lookup f.1 with
    | none =>
      simp only [hfield] at h
      cases h
    | some decode =>
      simp only [hfield] at h
      split_ifs at h with hseen
      obtain ⟨_, -, h⟩ := Result.bind_eq_ok.1 h
      have hnew : ((done ++ [f]).map (·.1)).Nodup := by
        rw [List.map_append, List.nodup_append]
        refine ⟨hdone, List.nodup_singleton _, ?_⟩
        intro name hname other hother heq
        rw [List.mem_singleton.1 hother] at heq
        refine hseen ?_
        rw [List.map_map]
        exact heq.subst (motive := (· ∈ _)) hname
      have hrest := ih hnew (by rw [List.map_append]; exact h)
      rw [List.append_assoc, List.singleton_append] at hrest
      refine ⟨hrest.1, ?_⟩
      rintro g hg
      rcases List.mem_cons.1 hg with rfl | hg
      · exact List.mem_map.2 ⟨_, mem_of_lookup hfield, rfl⟩
      · exact hrest.2 g hg

/-- A structure comes from an object with known names, or from `null`. -/
theorem struct_ofJson (h : struct fields (ofJson v) = .ok seen) :
    v = .null ∧ seen = [] ∨
      ∃ members, v = .object members ∧ Seen members seen ∧
        ∀ f ∈ members, f.1 ∈ fields.map (·.1) := by
  rw [struct, untag_ofJson] at h
  cases v with
  | null =>
    cases h
    exact .inl ⟨rfl, rfl⟩
  | object members =>
    have hseen : Seen ([] ++ members) seen ∧ ∀ f ∈ members, f.1 ∈ fields.map (·.1) :=
      visit_ofFields List.nodup_nil h
    exact .inr ⟨members, rfl, hseen⟩
  | bool | int | float | string | array => cases h

theorem Seen.lookup_of_mem (h : Seen members seen) (hv : (name, v) ∈ members) :
    seen.lookup name = some (ofJson v) := by
  refine Serde.lookup_of_mem ?_ ?_
  · rw [h.eq, List.map_map]
    exact h.nodup
  · rw [h.eq]
    exact List.mem_map.2 ⟨_, hv, rfl⟩

theorem Seen.mem_of_lookup (h : Seen members seen) {y : Yaml} (hy : seen.lookup name = some y) :
    ∃ v, (name, v) ∈ members ∧ y = ofJson v := by
  have hmem := Serde.mem_of_lookup hy
  rw [h.eq] at hmem
  obtain ⟨f, hf, heq⟩ := List.mem_map.1 hmem
  cases heq
  exact ⟨f.2, hf, rfl⟩

section Members

variable {b : α}

/-- A required field is there and decodes. -/
theorem Seen.mem_of_required (h : Seen members seen) (hr : required name value seen = .ok a) :
    ∃ v, (name, v) ∈ members ∧ value (ofJson v) = .ok a := by
  unfold Serde.required at hr
  cases hy : seen.lookup name with
  | none =>
    rw [hy] at hr
    cases hr
  | some y =>
    rw [hy] at hr
    obtain ⟨v, hv, rfl⟩ := h.mem_of_lookup hy
    exact ⟨v, hv, hr⟩

/-- The member of a name is the one that was decoded. -/
theorem Seen.required_of_mem (h : Seen members seen) (hr : required name value seen = .ok a)
    (hv : (name, v) ∈ members) : value (ofJson v) = .ok a := by
  rw [Serde.required, h.lookup_of_mem hv] at hr
  exact hr

theorem Seen.withDefault_of_mem (h : Seen members seen)
    (hr : withDefault b name value seen = .ok a) (hv : (name, v) ∈ members) :
    value (ofJson v) = .ok a := by
  rw [withDefault, h.lookup_of_mem hv] at hr
  exact hr

theorem Seen.optional_of_mem (h : Seen members seen) (hr : optional name value seen = .ok x)
    (hv : (name, v) ∈ members) :
    v ≠ .null ∧ ∃ a, x = some a ∧ value (ofJson v) = .ok a :=
  option_ofJson (h.withDefault_of_mem hr hv)

/-- A field with a value is there. -/
theorem Seen.mem_of_optional (h : Seen members seen)
    (hr : optional name value seen = .ok (some a)) : ∃ v, (name, v) ∈ members := by
  unfold optional withDefault at hr
  cases hy : seen.lookup name with
  | none =>
    rw [hy] at hr
    cases hr
  | some y =>
    obtain ⟨v, hv, -⟩ := h.mem_of_lookup hy
    exact ⟨v, hv⟩

end Members

end Fields

end Serde
