import EraseMe.Library.JsonOrder
import Mathlib.Data.List.Sort
import Mathlib.Data.String.Basic

/-!
# `jsonorder`: objects with sorted member names

`goMapOrder` sorts the members of every object by name.  It does not change what a lookup finds,
up to the order inside the value found, nor how deep the value is nested.
-/

namespace EraseMe

open Json

/-- The members sorted by name; members of one name keep their order. -/
def sortFields (fields : Map) : Map := fields.insertionSort fun a b => a.1 ≤ b.1

mutual

/-- Sort the members of every object.  The nested values are ordered first: sorting compares
names only. -/
def goMapOrder : Json → Json
  | .object fields => .object (sortFields (goMapOrderFields fields))
  | .array items => .array (goMapOrderItems items)
  | v => v

/-- The items in order. -/
def goMapOrderItems : List Json → List Json
  | [] => []
  | v :: items => goMapOrder v :: goMapOrderItems items

/-- The members in order. -/
def goMapOrderFields : List (String × Json) → List (String × Json)
  | [] => []
  | (key, v) :: fields => (key, goMapOrder v) :: goMapOrderFields fields

end

/-! ### Lookup -/

theorem get_orderedInsert (f : String × Json) (m : Map) (key : String) :
    Map.get (m.orderedInsert (fun a b => a.1 ≤ b.1) f) key =
      if key = f.1 then some f.2 else m.get key := by
  induction m with
  | nil => rw [List.orderedInsert_nil, Map.get_cons]
  | cons g m ih =>
    rw [List.orderedInsert_cons]
    by_cases h : f.1 ≤ g.1
    · rw [if_pos h, Map.get_cons]
    · rw [if_neg h, Map.get_cons, ih, Map.get_cons]
      by_cases hk : key = f.1
      · have hne : ¬ key = g.1 := by
          rintro rfl
          exact h (hk ▸ le_refl _)
        rw [if_neg hne, if_pos hk, if_pos hk]
      · rw [if_neg hk, if_neg hk]

theorem get_sortFields (m : Map) (key : String) : (sortFields m).get key = m.get key := by
  induction m with
  | nil => rfl
  | cons f m ih =>
    unfold sortFields at ih ⊢
    rw [List.insertionSort_cons, get_orderedInsert, ih, Map.get_cons]

theorem get_goMapOrderFields (m : Map) (key : String) :
    Map.get (goMapOrderFields m) key = (m.get key).map goMapOrder := by
  induction m with
  | nil => rfl
  | cons f m ih =>
    obtain ⟨k, v⟩ := f
    rw [goMapOrderFields, Map.get_cons, ih, Map.get_cons]
    by_cases hk : key = k
    · rw [if_pos hk, if_pos hk, Option.map_some]
    · rw [if_neg hk, if_neg hk]

/-- The members of a sorted object. -/
def sortedMap (m : Map) : Map := sortFields (goMapOrderFields m)

theorem goMapOrder_object (m : Map) : goMapOrder (.object m) = .object (sortedMap m) := by
  rw [goMapOrder, sortedMap]

theorem get_sortedMap (m : Map) (key : String) :
    (sortedMap m).get key = (m.get key).map goMapOrder := by
  rw [sortedMap, get_sortFields, get_goMapOrderFields]

/-! ### Depth -/

theorem depthFields_orderedInsert (f : String × Json) (m : Map) :
    depthFields (m.orderedInsert (fun a b => a.1 ≤ b.1) f) = max (depth f.2) (depthFields m) := by
  obtain ⟨k, v⟩ := f
  induction m with
  | nil => rw [List.orderedInsert_nil, depthFields]; rfl
  | cons g m ih =>
    obtain ⟨k', v'⟩ := g
    rw [List.orderedInsert_cons]
    by_cases h : k ≤ k'
    · rw [if_pos h, depthFields]
    · rw [if_neg h, depthFields, ih, depthFields]
      exact max_left_comm _ _ _

theorem depthFields_sortFields (m : Map) : depthFields (sortFields m) = depthFields m := by
  induction m with
  | nil => rfl
  | cons f m ih =>
    obtain ⟨k, v⟩ := f
    unfold sortFields at ih ⊢
    rw [List.insertionSort_cons, depthFields_orderedInsert, ih, depthFields]

mutual

theorem depth_goMapOrder : ∀ v : Json, depth (goMapOrder v) = depth v
  | .object fields => by
      rw [goMapOrder, depth, depthFields_sortFields, depthFields_goMapOrderFields fields, depth]
  | .array items => by rw [goMapOrder, depth, depthItems_goMapOrderItems items, depth]
  | .null => by rw [goMapOrder]; all_goals simp
  | .bool b => by rw [goMapOrder]; all_goals simp
  | .int n => by rw [goMapOrder]; all_goals simp
  | .float m e => by rw [goMapOrder]; all_goals simp
  | .string s => by rw [goMapOrder]; all_goals simp

theorem depthItems_goMapOrderItems : ∀ l : List Json, depthItems (goMapOrderItems l) = depthItems l
  | [] => rfl
  | v :: l => by
      rw [goMapOrderItems, depthItems, depth_goMapOrder v, depthItems_goMapOrderItems l, depthItems]

theorem depthFields_goMapOrderFields :
    ∀ l : List (String × Json), depthFields (goMapOrderFields l) = depthFields l
  | [] => rfl
  | (k, v) :: l => by
      rw [goMapOrderFields, depthFields, depth_goMapOrder v, depthFields_goMapOrderFields l,
        depthFields]

end

/-! ### The order of members -/

theorem perm_sortFields (fields : Map) : (sortFields fields).Perm fields :=
  List.perm_insertionSort _ fields

/-- Sorting forgets the order of members with different names. -/
theorem sortFields_eq_of_perm {fields fields' : Map} (h : fields.Perm fields')
    (hnodup : (fields.map Prod.fst).Nodup) : sortFields fields = sortFields fields' := by
  have htotal : Std.Total fun a b : String × Json => a.1 ≤ b.1 := ⟨fun a b => le_total a.1 b.1⟩
  have htrans : IsTrans (String × Json) fun a b => a.1 ≤ b.1 := ⟨fun _ _ _ => le_trans⟩
  have hsorted : ∀ l : Map, (sortFields l).Pairwise fun a b => a.1 ≤ b.1 := fun l =>
    List.pairwise_insertionSort _ l
  refine List.Perm.eq_of_pairwise (fun a b ha hb (hab : a.1 ≤ b.1) hba => ?_) (hsorted _) (hsorted _)
    ((perm_sortFields fields).trans (h.trans (perm_sortFields fields').symm))
  have ha' := (perm_sortFields fields).mem_iff.1 ha
  have hb' := h.mem_iff.2 ((perm_sortFields fields').mem_iff.1 hb)
  exact List.inj_on_of_nodup_map hnodup ha' hb' (le_antisymm hab hba)

theorem goMapOrderFields_append (l l' : List (String × Json)) :
    goMapOrderFields (l ++ l') = goMapOrderFields l ++ goMapOrderFields l' := by
  induction l with
  | nil => rfl
  | cons f l ih =>
    obtain ⟨key, v⟩ := f
    rw [List.cons_append, goMapOrderFields, ih]
    rfl

theorem names_goMapOrderFields (l : List (String × Json)) :
    (goMapOrderFields l).map Prod.fst = l.map Prod.fst := by
  induction l with
  | nil => rfl
  | cons f l ih =>
    obtain ⟨key, v⟩ := f
    rw [goMapOrderFields, List.map_cons, ih, List.map_cons]

theorem goMapOrder_of_atom {v : Json} (harray : ∀ items, v ≠ .array items)
    (hobject : ∀ fields, v ≠ .object fields) : goMapOrder v = v := by
  cases v with
  | array items => exact absurd rfl (harray items)
  | object fields => exact absurd rfl (hobject fields)
  | _ =>
    rw [goMapOrder]
    all_goals simp

section Atoms

variable {p : Json → Prop}

mutual

theorem atoms_goMapOrder : ∀ {v : Json}, Atoms p v → Atoms p (goMapOrder v)
  | .object fields, h => by
      rw [Atoms] at h
      rw [goMapOrder, Atoms, atomsMembers_iff]
      exact fun f hf => atomsMembers_iff.1 (atomsMembers_goMapOrderFields h) f
        ((perm_sortFields _).mem_iff.1 hf)
  | .array items, h => by
      rw [Atoms] at h
      rw [goMapOrder, Atoms]
      exact atomsItems_goMapOrderItems h
  | .null, h => by rwa [goMapOrder_of_atom (by simp) (by simp)]
  | .bool b, h => by rwa [goMapOrder_of_atom (by simp) (by simp)]
  | .int n, h => by rwa [goMapOrder_of_atom (by simp) (by simp)]
  | .float m e, h => by rwa [goMapOrder_of_atom (by simp) (by simp)]
  | .string s, h => by rwa [goMapOrder_of_atom (by simp) (by simp)]

theorem atomsItems_goMapOrderItems :
    ∀ {items : List Json}, AtomsItems p items → AtomsItems p (goMapOrderItems items)
  | [], h => h
  | v :: items, h => by
      rw [AtomsItems] at h
      rw [goMapOrderItems, AtomsItems]
      exact ⟨atoms_goMapOrder h.1, atomsItems_goMapOrderItems h.2⟩

theorem atomsMembers_goMapOrderFields :
    ∀ {fields : List (String × Json)}, AtomsMembers p fields →
      AtomsMembers p (goMapOrderFields fields)
  | [], h => h
  | (key, v) :: fields, h => by
      rw [AtomsMembers] at h
      rw [goMapOrderFields, AtomsMembers]
      exact ⟨atoms_goMapOrder h.1, atomsMembers_goMapOrderFields h.2⟩

end

end Atoms

mutual

/-- The sorted value is the same value. -/
theorem same_goMapOrder : ∀ v : Json, Same v (goMapOrder v)
  | .object fields => by
      rw [goMapOrder]
      exact .object (sameMembers_sortFields fields)
  | .array items => by
      rw [goMapOrder]
      exact .array (sameItems_goMapOrderItems items)
  | .null => by
      rw [goMapOrder_of_atom (by simp) (by simp)]
      exact .null
  | .bool b => by
      rw [goMapOrder_of_atom (by simp) (by simp)]
      exact .bool b
  | .int n => by
      rw [goMapOrder_of_atom (by simp) (by simp)]
      exact .int n
  | .float m e => by
      rw [goMapOrder_of_atom (by simp) (by simp)]
      exact .float m e
  | .string s => by
      rw [goMapOrder_of_atom (by simp) (by simp)]
      exact .string s

theorem sameItems_goMapOrderItems : ∀ items : List Json, SameItems items (goMapOrderItems items)
  | [] => .nil
  | v :: items => .cons (same_goMapOrder v) (sameItems_goMapOrderItems items)

theorem sameMembers_sortFields :
    ∀ fields : List (String × Json), SameMembers fields (sortFields (goMapOrderFields fields))
  | [] => .nil
  | (key, v) :: fields => by
      -- the first member is put between the sorted others
      rw [goMapOrderFields, sortFields, List.insertionSort_cons, List.orderedInsert_eq_take_drop]
      refine .cons (same_goMapOrder v) ?_
      rw [List.takeWhile_append_dropWhile]
      exact sameMembers_sortFields fields

end

mutual

/-- Values that are the same up to the order of members are sorted to one value. -/
theorem goMapOrder_eq_of_same :
    ∀ {v w : Json}, Distinct v → Same v w → goMapOrder v = goMapOrder w
  | .object fields, _, hdistinct, .object h => by
      rw [Distinct] at hdistinct
      rw [goMapOrder, goMapOrder]
      refine congrArg Json.object
        (sortFields_eq_of_perm (perm_goMapOrderFields_of_same hdistinct.2 h) ?_)
      rw [names_goMapOrderFields]
      exact hdistinct.1
  | .array items, _, hdistinct, .array h => by
      rw [Distinct] at hdistinct
      rw [goMapOrder, goMapOrder, goMapOrderItems_eq_of_same hdistinct h]
  | .null, _, _, .null => rfl
  | .bool _, _, _, .bool _ => rfl
  | .int _, _, _, .int _ => rfl
  | .float _ _, _, _, .float _ _ => rfl
  | .string _, _, _, .string _ => rfl

theorem goMapOrderItems_eq_of_same :
    ∀ {l l' : List Json}, DistinctItems l → SameItems l l' → goMapOrderItems l = goMapOrderItems l'
  | [], _, _, .nil => rfl
  | v :: items, _, hdistinct, .cons h hrest => by
      rw [DistinctItems] at hdistinct
      rw [goMapOrderItems, goMapOrderItems, goMapOrder_eq_of_same hdistinct.1 h,
        goMapOrderItems_eq_of_same hdistinct.2 hrest]

theorem perm_goMapOrderFields_of_same :
    ∀ {l l' : List (String × Json)}, DistinctMembers l → SameMembers l l' →
      (goMapOrderFields l).Perm (goMapOrderFields l')
  | [], _, _, .nil => List.Perm.refl _
  | (key, v) :: fields, _, hdistinct, .cons h hrest => by
      rw [DistinctMembers] at hdistinct
      rw [goMapOrderFields, goMapOrder_eq_of_same hdistinct.1 h, goMapOrderFields_append,
        goMapOrderFields]
      have hperm := perm_goMapOrderFields_of_same hdistinct.2 hrest
      rw [goMapOrderFields_append] at hperm
      exact (hperm.cons _).trans List.perm_middle.symm

end

example : goMapOrder (.object [("b", .array [.object [("d", .int 1), ("c", .int 2)]]),
    ("a", .object [("z", .int 0), ("y", .int 0)])]) =
    .object [("a", .object [("y", .int 0), ("z", .int 0)]),
      ("b", .array [.object [("c", .int 2), ("d", .int 1)]])] := rfl

end EraseMe
