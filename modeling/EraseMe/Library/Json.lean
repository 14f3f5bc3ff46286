import Mathlib.Data.Int.Log
import Mathlib.Tactic

/-!
# JSON values

The values of `serde_json`: numbers are integers or binary floating-point numbers, and an object
keeps its members in insertion order.  `Map.get` finds a member and `Map.insert` replaces one in
place or appends it.  A text decodes only up to a nesting depth (`decodes`).
-/

/-- A JSON value.  A number with a fraction is `mantissa * 2 ^ exponent`. -/
inductive Json
  | null
  | bool (b : Bool)
  | int (n : ℤ)
  | float (mantissa exponent : ℤ)
  | string (s : String)
  | array (items : List Json)
  | object (fields : List (String × Json))

namespace Json

/-- The members of an object, in insertion order. -/
abbrev Map := List (String × Json)

/-- The member with the given name. -/
def Map.get (m : Map) (key : String) : Option Json := m.lookup key

/-- Replace the member with the given name, or append it. -/
def Map.insert (m : Map) (key : String) (v : Json) : Map :=
  if m.any (·.1 == key) then m.map fun f => if f.1 = key then (key, v) else f else m ++ [(key, v)]

/-- The value is `null`. -/
def isNull : Json → Bool
  | .null => true
  | _ => false

/-- The text of a string. -/
def asStr : Json → Option String
  | .string s => some s
  | _ => none

/-- The value of a boolean. -/
def asBool : Json → Option Bool
  | .bool b => some b
  | _ => none

/-- The items of an array. -/
def asArray : Json → Option (List Json)
  | .array items => some items
  | _ => none

def i64Min : ℤ := -9223372036854775808
def i64Max : ℤ := 9223372036854775807

/-- An integer of 64 bits. -/
def asI64 : Json → Option ℤ
  | .int n => if i64Min ≤ n ∧ n ≤ i64Max then some n else none
  | _ => none

/-- The natural number nearest to `n` with 53 significant bits, ties to even. -/
def round53 (n : ℕ) : ℕ :=
  if n < 2 ^ 53 then n
  else
    let unit := 2 ^ (Nat.log2 n - 52)
    let q := n / unit
    let r := n % unit
    (if 2 * r > unit ∨ (2 * r = unit ∧ q % 2 = 1) then q + 1 else q) * unit

/-- The number as a double: its mantissa and exponent. -/
def asF64 : Json → Option (ℤ × ℤ)
  | .int n => some (n.sign * round53 n.natAbs, 0)
  | .float mantissa exponent => some (mantissa, exponent)
  | _ => none

/-- The number that a double stands for. -/
def rational (x : ℤ × ℤ) : ℚ := x.1 * 2 ^ x.2

/-- The integer part of a double, toward zero. -/
def truncate : ℤ × ℤ → ℤ
  | (mantissa, exponent) =>
      if 0 ≤ exponent then mantissa * 2 ^ exponent.toNat
      else mantissa.tdiv (2 ^ (-exponent).toNat)

mutual

/-- How deep arrays and objects are nested. -/
def depth : Json → ℕ
  | .array items => depthItems items + 1
  | .object fields => depthFields fields + 1
  | _ => 0

/-- The deepest item. -/
def depthItems : List Json → ℕ
  | [] => 0
  | v :: items => max (depth v) (depthItems items)

/-- The deepest member. -/
def depthFields : List (String × Json) → ℕ
  | [] => 0
  | (_, v) :: fields => max (depth v) (depthFields fields)

end

/-- The depth up to which a text is decoded. -/
def maxDepth : ℕ := 127

/-- Whether the text of the value decodes again. -/
def decodes (v : Json) : Bool := v.depth ≤ maxDepth

/-! ### Members -/

@[simp] theorem Map.get_nil (key : String) : Map.get [] key = none := rfl

theorem Map.get_cons (key : String) (f : String × Json) (m : Map) :
    Map.get (f :: m) key = if key = f.1 then some f.2 else Map.get m key := by
  obtain ⟨k, v⟩ := f
  by_cases h : key = k
  · simp [Map.get, h]
  · simp [Map.get, List.lookup_cons, h, beq_eq_false_iff_ne.2 h]

theorem Map.get_append (key : String) (m m' : Map) :
    Map.get (m ++ m') key = (Map.get m key).or (Map.get m' key) := by
  induction m with
  | nil => simp
  | cons f m ih =>
    rw [List.cons_append, Map.get_cons, Map.get_cons, ih]
    by_cases h : key = f.1 <;> simp [h]

/-- Replacing a member in place. -/
theorem Map.get_map_replace (m : Map) (key key' : String) (v : Json) :
    Map.get (m.map fun f => if f.1 = key then (key, v) else f) key' =
      if key' = key then (m.get key).map fun _ => v else m.get key' := by
  induction m with
  | nil => simp
  | cons f m ih =>
    rw [List.map_cons, Map.get_cons, Map.get_cons, Map.get_cons, ih]
    by_cases hf : f.1 = key
    · rw [if_pos hf, hf]
      by_cases hk : key' = key
      · simp [hk]
      · simp [hk]
    · rw [if_neg hf, if_neg (show ¬ key = f.1 from fun e => hf e.symm)]
      by_cases hk : key' = key
      · rw [if_pos hk, if_pos hk, hk, if_neg (show ¬ key = f.1 from fun e => hf e.symm)]
      · rw [if_neg hk, if_neg hk]

theorem Map.any_eq_true_iff (m : Map) (key : String) :
    m.any (·.1 == key) = true ↔ m.get key ≠ none := by
  induction m with
  | nil => simp
  | cons f m ih =>
    rw [List.any_cons, Bool.or_eq_true, ih, Map.get_cons, beq_iff_eq]
    by_cases h : f.1 = key
    · simp [h]
    · simp [h, show ¬ key = f.1 from fun e => h e.symm]

theorem Map.get_insert (m : Map) (key key' : String) (v : Json) :
    (m.insert key v).get key' = if key' = key then some v else m.get key' := by
  unfold Map.insert
  by_cases h : m.any (·.1 == key) = true
  · rw [if_pos h, Map.get_map_replace]
    obtain ⟨w, hw⟩ := Option.ne_none_iff_exists'.1 ((m.any_eq_true_iff key).1 h)
    rw [hw, Option.map_some]
  · rw [if_neg h, Map.get_append, Map.get_cons, Map.get_nil]
    have hnone : m.get key = none := by
      by_contra hne
      exact h ((m.any_eq_true_iff key).2 hne)
    by_cases hk : key' = key
    · rw [if_pos hk, if_pos hk, hk, hnone, Option.none_or]
    · rw [if_neg hk, if_neg hk, Option.or_none]

end Json
