import EraseMe.Library.Json

/-!
# Values up to the order of members

Two JSON values are the same up to the order of members (`Same`) when they are equal but for the
order in which their objects list the members.  The order says nothing where no object has two
members of one name (`Distinct`).  `Atoms p` says that everything inside a value that is neither an
array nor an object has the property `p`.
-/

namespace Json

mutual

/-- No object has two members of one name. -/
def Distinct : Json → Prop
  | .array items => DistinctItems items
  | .object fields => (fields.map Prod.fst).Nodup ∧ DistinctMembers fields
  | _ => True

/-- The same for items. -/
def DistinctItems : List Json → Prop
  | [] => True
  | v :: items => Distinct v ∧ DistinctItems items

/-- The same for members. -/
def DistinctMembers : List (String × Json) → Prop
  | [] => True
  | (_, v) :: fields => Distinct v ∧ DistinctMembers fields

end

mutual

/-- The same value up to the order of members. -/
inductive Same : Json → Json → Prop
  | null : Same .null .null
  | bool (b : Bool) : Same (.bool b) (.bool b)
  | int (n : ℤ) : Same (.int n) (.int n)
  | float (mantissa exponent : ℤ) : Same (.float mantissa exponent) (.float mantissa exponent)
  | string (s : String) : Same (.string s) (.string s)
  | array {items items' : List Json} (h : SameItems items items') :
      Same (.array items) (.array items')
  | object {fields fields' : List (String × Json)} (h : SameMembers fields fields') :
      Same (.object fields) (.object fields')

/-- The same items. -/
inductive SameItems : List Json → List Json → Prop
  | nil : SameItems [] []
  | cons {v v' : Json} {items items' : List Json} (h : Same v v') (hrest : SameItems items items') :
      SameItems (v :: items) (v' :: items')

/-- The first member stands somewhere among the others. -/
inductive SameMembers : List (String × Json) → List (String × Json) → Prop
  | nil : SameMembers [] []
  | cons {key : String} {v v' : Json} {fields before after : List (String × Json)} (h : Same v v')
      (hrest : SameMembers fields (before ++ after)) :
      SameMembers ((key, v) :: fields) (before ++ (key, v') :: after)

end

section Atoms

variable (p : Json → Prop)

mutual

/-- What is neither an array nor an object has the property. -/
def Atoms : Json → Prop
  | .array items => AtomsItems items
  | .object fields => AtomsMembers fields
  | v => p v

/-- The same for items. -/
def AtomsItems : List Json → Prop
  | [] => True
  | v :: items => Atoms v ∧ AtomsItems items

/-- The same for members. -/
def AtomsMembers : List (String × Json) → Prop
  | [] => True
  | (_, v) :: fields => Atoms v ∧ AtomsMembers fields

end

variable {p}

theorem atomsItems_iff {items : List Json} : AtomsItems p items ↔ ∀ v ∈ items, Atoms p v := by
  induction items with
  | nil => simp [AtomsItems]
  | cons v items ih => rw [AtomsItems, ih, List.forall_mem_cons]

theorem atomsMembers_iff {fields : List (String × Json)} :
    AtomsMembers p fields ↔ ∀ f ∈ fields, Atoms p f.2 := by
  induction fields with
  | nil => simp [AtomsMembers]
  | cons f fields ih => rw [AtomsMembers, ih, List.forall_mem_cons]

end Atoms

end Json
