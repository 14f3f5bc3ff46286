import EraseMe.Library.Json
import Mathlib.Computability.RegularExpressions

/-!
# JSON schemas

A schema is what it accepts.  There is one definition for each keyword of draft 2020-12 used here;
a keyword about another type of value than the one at hand accepts it.  A pattern is a regular
expression for the whole text, and `format` says nothing.
-/

namespace JsonSchema

open Json

/-- What a schema accepts. -/
abbrev Schema := Json → Bool

/-! ### Keywords -/

/-- The types of a schema. -/
inductive JsonType
  | boolean
  | object
  | array
  | number
  | integer
  | string
  deriving DecidableEq, Repr

/-- Whether `n ≤ mantissa * 2 ^ exponent`. -/
def atMost (n mantissa exponent : ℤ) : Bool :=
  if 0 ≤ exponent then n ≤ mantissa * 2 ^ exponent.toNat
  else n * 2 ^ (-exponent).toNat ≤ mantissa

/-- Whether `mantissa * 2 ^ exponent ≤ n`. -/
def atLeast (n mantissa exponent : ℤ) : Bool :=
  if 0 ≤ exponent then mantissa * 2 ^ exponent.toNat ≤ n
  else mantissa ≤ n * 2 ^ (-exponent).toNat

/-- A number without a fraction is an integer. -/
def hasType : JsonType → Json → Bool
  | .boolean, .bool _ => true
  | .object, .object _ => true
  | .array, .array _ => true
  | .string, .string _ => true
  | .number, .int _ => true
  | .number, .float _ _ => true
  | .integer, .int _ => true
  | .integer, .float mantissa exponent =>
      0 ≤ exponent ∨ mantissa % 2 ^ (-exponent).toNat = 0
  | _, _ => false

/-- A value of a type. -/
def type (t : JsonType) : Schema := hasType t

/-- `enum` with strings. -/
def enum (values : List String) : Schema
  | .string s => s ∈ values
  | _ => false

/-- `const` with a string. -/
def const (value : String) : Schema
  | .string s => s = value
  | _ => false

/-- A text that matches. -/
def pattern (p : RegularExpression Char) : Schema
  | .string s => p.rmatch s.toList
  | _ => true

/-- A text of some length. -/
def minLength (n : ℕ) : Schema
  | .string s => n ≤ s.length
  | _ => true

/-- No number below. -/
def minimum (n : ℤ) : Schema
  | .int m => n ≤ m
  | .float mantissa exponent => atMost n mantissa exponent
  | _ => true

/-- No number above. -/
def maximum (n : ℤ) : Schema
  | .int m => m ≤ n
  | .float mantissa exponent => atLeast n mantissa exponent
  | _ => true

/-- Items that are accepted. -/
def items (s : Schema) : Schema
  | .array vs => vs.all s
  | _ => true

/-- Some items at least. -/
def minItems (n : ℕ) : Schema
  | .array vs => n ≤ vs.length
  | _ => true

/-- Members that are there. -/
def required (names : List String) : Schema
  | .object fields => names.all fun name => fields.any fun f => f.1 = name
  | _ => true

/-- `properties`, and `additionalProperties` for the others. -/
def properties (ps : List (String × Schema)) (others : Schema) : Schema
  | .object fields => fields.all fun f => ((ps.lookup f.1).getD others) f.2
  | _ => true

/-- Names that are accepted. -/
def propertyNames (s : Schema) : Schema
  | .object fields => fields.all fun f => s (.string f.1)
  | _ => true

/-- Some members at least. -/
def minProperties (n : ℕ) : Schema
  | .object fields => n ≤ fields.length
  | _ => true

/-- All schemas accept it. -/
def allOf (ss : List Schema) : Schema := fun v => ss.all fun s => s v

/-- Some schema accepts it. -/
def anyOf (ss : List Schema) : Schema := fun v => ss.any fun s => s v

/-- One schema accepts it. -/
def oneOf (ss : List Schema) : Schema := fun v => (ss.filter fun s => s v).length = 1

/-- The schema rejects it. -/
def not (s : Schema) : Schema := fun v => !s v

/-- The schemas `true` and `false`. -/
def anything : Schema := fun _ => true

/-- Nothing is accepted. -/
def nothing : Schema := fun _ => false

/-! ### Below a value -/

/-- The members of an object under a name. -/
def members (name : String) : Json → List Json
  | .object fields => (fields.filter fun f => f.1 = name).map (·.2)
  | _ => []

/-- The items, if any. -/
def elements : Json → List Json
  | .array items => items
  | _ => []

section Accepted

variable {ps : List (String × Schema)} {s t others : Schema} {fields : List (String × Json)}
  {name : String} {v x : Json}

@[simp] theorem mem_members_object :
    x ∈ members name (.object fields) ↔ (name, x) ∈ fields := by
  simp only [members, List.mem_map, List.mem_filter, decide_eq_true_eq]
  constructor
  · rintro ⟨f, ⟨hf, rfl⟩, rfl⟩
    exact hf
  · exact fun h => ⟨(name, x), ⟨h, rfl⟩, rfl⟩

/-- A name occurs once where the names are different. -/
theorem members_of_nodup (h : (fields.map (·.1)).Nodup) (hx : (name, x) ∈ fields) :
    members name (.object fields) = [x] := by
  induction fields with
  | nil => cases hx
  | cons f fields ih =>
    rw [List.map_cons, List.nodup_cons] at h
    rcases List.mem_cons.1 hx with rfl | hx
    · have hrest : fields.filter (fun f => f.1 = name) = [] := by
        refine List.filter_eq_nil_iff.2 fun g hg hname => h.1 ?_
        have hname : g.1 = name := of_decide_eq_true hname
        exact List.mem_map.2 ⟨g, hg, hname⟩
      simp [members, hrest]
    · have hne : f.1 ≠ name := by
        rintro rfl
        exact h.1 (List.mem_map.2 ⟨_, hx, rfl⟩)
      have hfields := ih h.2 hx
      simpa [members, List.filter_cons, hne] using hfields

@[simp] theorem allOf_nil (v : Json) : allOf [] v = true := rfl

@[simp] theorem allOf_cons (s : Schema) (ss : List Schema) (v : Json) :
    allOf (s :: ss) v = (s v && allOf ss v) := rfl

/-- A member satisfies the schema of its name. -/
theorem properties_members (h : properties ps others v = true) (hs : ps.lookup name = some s)
    (hx : x ∈ members name v) : s x = true := by
  cases v with
  | object fields =>
    have hx := List.all_eq_true.1 h (name, x) (mem_members_object.1 hx)
    rwa [hs] at hx
  | null | bool | int | float | string | array => cases hx

theorem items_elements (h : items s v = true) (hx : x ∈ elements v) : s x = true := by
  cases v with
  | array vs => exact List.all_eq_true.1 h x hx
  | null | bool | int | float | string | object => cases hx

/-- An object satisfies `properties` when its members do. -/
theorem properties_object (hothers : ∀ f ∈ fields, f.1 ∈ ps.map (·.1) ∨ others f.2 = true)
    (h : ∀ p ∈ ps, ∀ v, (p.1, v) ∈ fields → p.2 v = true) :
    properties ps others (.object fields) = true := by
  refine List.all_eq_true.2 fun f hf => ?_
  cases hlookup : ps.lookup f.1 with
  | none =>
    rcases hothers f hf with hname | hother
    · obtain ⟨p, hp, hname⟩ := List.mem_map.1 hname
      have := List.lookup_eq_none_iff.1 hlookup p hp
      simp [hname] at this
    · exact hother
  | some s =>
    obtain ⟨l₁, l₂, rfl, -⟩ := List.lookup_eq_some_iff.1 hlookup
    exact h (f.1, s) (by simp) f.2 hf

theorem required_object {names : List String} (h : ∀ name ∈ names, ∃ v, (name, v) ∈ fields) :
    required names (.object fields) = true := by
  refine List.all_eq_true.2 fun name hname => ?_
  obtain ⟨v, hv⟩ := h name hname
  exact List.any_eq_true.2 ⟨(name, v), hv, by simp⟩

theorem required_eq_false {names : List String} (hname : name ∈ names)
    (h : ∀ v, (name, v) ∉ fields) : required names (.object fields) = false := by
  refine List.all_eq_false.2 ⟨name, hname, ?_⟩
  rw [Bool.not_eq_true, List.any_eq_false]
  rintro ⟨other, v⟩ hf
  simp only [decide_eq_true_eq]
  rintro rfl
  exact h v hf

theorem oneOf_left (hs : s v = true) (ht : t v = false) : oneOf [s, t] v = true := by
  simp [oneOf, hs, ht]

theorem oneOf_right (hs : s v = false) (ht : t v = true) : oneOf [s, t] v = true := by
  simp [oneOf, hs, ht]

end Accepted

/-! ### Patterns -/

/-- One of several characters. -/
def oneChar (cs : List Char) : RegularExpression Char := (cs.map RegularExpression.char).sum

theorem rmatch_oneChar {cs : List Char} {c : Char} (h : c ∈ cs) : (oneChar cs).rmatch [c] := by
  induction cs with
  | nil => cases h
  | cons d cs ih =>
    rw [oneChar, List.map_cons, List.sum_cons, RegularExpression.add_rmatch_iff]
    rcases List.mem_cons.1 h with rfl | h
    · exact .inl ((RegularExpression.char_rmatch_iff _ _).2 rfl)
    · exact .inr (ih h)

/-- Any number of them. -/
theorem rmatch_star_oneChar {cs s : List Char} (h : ∀ c ∈ s, c ∈ cs) :
    (oneChar cs).star.rmatch s := by
  rw [RegularExpression.star_rmatch_iff]
  refine ⟨s.map fun c => [c], ?_, ?_⟩
  · induction s with
    | nil => rfl
    | cons c s ih =>
      rw [List.map_cons, List.flatten_cons, ← ih fun d hd => h d (List.mem_cons_of_mem _ hd)]
      rfl
  · intro t ht
    obtain ⟨c, hc, rfl⟩ := List.mem_map.1 ht
    exact ⟨List.cons_ne_nil _ _, rmatch_oneChar (h c hc)⟩

/-- One of some characters, then any number of others. -/
theorem rmatch_oneChar_mul_star {cs ds s : List Char} {c : Char} (hc : c ∈ cs)
    (hs : ∀ d ∈ s, d ∈ ds) : (oneChar cs * (oneChar ds).star).rmatch (c :: s) := by
  rw [RegularExpression.mul_rmatch_iff]
  exact ⟨[c], s, rfl, rmatch_oneChar hc, rmatch_star_oneChar hs⟩

end JsonSchema
