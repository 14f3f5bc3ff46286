import Mathlib.Tactic

/-!
# Ordered maps

A `BTreeMap` keeps its entries in ascending order of their keys.  `alter` rewrites or inserts the
value of a key, as `entry(key).or_default()` does; `get_alter` says what is found afterwards and `mem_alter` which
entries there are.  A map is what comes of inserting its entries (`foldl_insert_entries`).
-/

/-- Entries in ascending order of their keys. -/
structure BTreeMap (κ ν : Type) [LinearOrder κ] where
  entries : List (κ × ν)
  ascending : entries.Pairwise fun a b => a.1 < b.1
  deriving DecidableEq, Repr

namespace BTreeMap

variable {κ ν : Type} [LinearOrder κ]

/-- No entries. -/
def empty : BTreeMap κ ν := ⟨[], List.Pairwise.nil⟩

/-- The value of a key. -/
def get (m : BTreeMap κ ν) (key : κ) : Option ν := m.entries.lookup key

/-- The entries with the value of a key rewritten. -/
def alterEntries (key : κ) (f : Option ν → ν) : List (κ × ν) → List (κ × ν)
  | [] => [(key, f none)]
  | (k, v) :: entries =>
      if key < k then (key, f none) :: (k, v) :: entries
      else if key = k then (k, f (some v)) :: entries
      else (k, v) :: alterEntries key f entries

theorem alterEntries_cons (key k : κ) (f : Option ν → ν) (v : ν) (entries : List (κ × ν)) :
    alterEntries key f ((k, v) :: entries) =
      if key < k then (key, f none) :: (k, v) :: entries
      else if key = k then (k, f (some v)) :: entries
      else (k, v) :: alterEntries key f entries := rfl

theorem alterEntries_keys (key : κ) (f : Option ν → ν) (entries : List (κ × ν)) {entry : κ × ν}
    (h : entry ∈ alterEntries key f entries) : entry.1 = key ∨ entry ∈ entries := by
  induction entries with
  | nil => exact Or.inl (by rw [List.mem_singleton.1 h])
  | cons e entries ih =>
    obtain ⟨k, v⟩ := e
    rw [alterEntries_cons] at h
    split_ifs at h with hlt heq
    · rcases List.mem_cons.1 h with rfl | h
      · exact Or.inl rfl
      · exact Or.inr h
    · rcases List.mem_cons.1 h with rfl | h
      · exact Or.inl heq.symm
      · exact Or.inr (List.mem_cons_of_mem _ h)
    · rcases List.mem_cons.1 h with rfl | h
      · exact Or.inr List.mem_cons_self
      · exact (ih h).imp_right (List.mem_cons_of_mem _)

theorem pairwise_alterEntries (key : κ) (f : Option ν → ν) {entries : List (κ × ν)}
    (h : entries.Pairwise fun a b => a.1 < b.1) :
    (alterEntries key f entries).Pairwise fun a b => a.1 < b.1 := by
  induction entries with
  | nil => exact List.pairwise_singleton _ _
  | cons e entries ih =>
    obtain ⟨k, v⟩ := e
    obtain ⟨hhead, htail⟩ := List.pairwise_cons.1 h
    rw [alterEntries_cons]
    split_ifs with hlt heq
    · refine List.pairwise_cons.2 ⟨fun b hb => ?_, h⟩
      rcases List.mem_cons.1 hb with rfl | hb
      · exact hlt
      · exact hlt.trans (hhead b hb)
    · exact List.pairwise_cons.2 ⟨hhead, htail⟩
    · refine List.pairwise_cons.2 ⟨fun b hb => ?_, ih htail⟩
      rcases alterEntries_keys key f entries hb with hkey | hb
      · exact hkey ▸ lt_of_le_of_ne (not_lt.1 hlt) (Ne.symm heq)
      · exact hhead b hb

/-- Rewrite or insert the value of a key. -/
def alter (m : BTreeMap κ ν) (key : κ) (f : Option ν → ν) : BTreeMap κ ν where
  entries := alterEntries key f m.entries
  ascending := pairwise_alterEntries key f m.ascending

@[simp] theorem get_empty (key : κ) : (empty : BTreeMap κ ν).get key = none := rfl

theorem lookup_cons_eq (k key : κ) (v : ν) (entries : List (κ × ν)) :
    ((k, v) :: entries).lookup key = if key = k then some v else entries.lookup key := by
  rw [List.lookup_cons]
  by_cases h : key = k
  · simp [h]
  · simp [h, beq_eq_false_iff_ne.2 h]

theorem get_alter (m : BTreeMap κ ν) (key key' : κ) (f : Option ν → ν) :
    (m.alter key f).get key' = if key' = key then some (f (m.get key)) else m.get key' := by
  obtain ⟨entries, h⟩ := m
  show (alterEntries key f entries).lookup key' =
    if key' = key then some (f (entries.lookup key)) else entries.lookup key'
  induction entries with
  | nil => exact lookup_cons_eq ..
  | cons e entries ih =>
    obtain ⟨k, v⟩ := e
    obtain ⟨hhead, htail⟩ := List.pairwise_cons.1 h
    rw [alterEntries_cons]
    by_cases hlt : key < k
    · -- before the first entry: no entry has the key
      have hnone : ((k, v) :: entries).lookup key = none := by
        rw [List.lookup_eq_none_iff]
        intro b hb
        rw [bne_iff_ne]
        rcases List.mem_cons.1 hb with rfl | hb
        · exact hlt.ne
        · exact (hlt.trans (hhead b hb)).ne
      rw [if_pos hlt, lookup_cons_eq, hnone]
    · rw [if_neg hlt]
      by_cases heq : key = k
      · rw [if_pos heq, lookup_cons_eq, lookup_cons_eq, lookup_cons_eq, if_pos heq, heq]
        by_cases hkey : key' = k
        · rw [if_pos hkey, if_pos hkey]
        · rw [if_neg hkey, if_neg hkey, if_neg hkey]
      · rw [if_neg heq, lookup_cons_eq, lookup_cons_eq, lookup_cons_eq, if_neg heq, ih htail]
        by_cases hkey : key' = k
        · have hne : ¬ key' = key := fun h => heq (h.symm.trans hkey)
          rw [if_pos hkey, if_pos hkey, if_neg hne]
        · rw [if_neg hkey, if_neg hkey]

theorem mem_entries_iff {m : BTreeMap κ ν} {entry : κ × ν} :
    entry ∈ m.entries ↔ m.get entry.1 = some entry.2 := by
  obtain ⟨entries, h⟩ := m
  obtain ⟨key, value⟩ := entry
  show (key, value) ∈ entries ↔ entries.lookup key = some value
  induction entries with
  | nil => simp
  | cons e entries ih =>
    obtain ⟨k, v⟩ := e
    obtain ⟨hhead, htail⟩ := List.pairwise_cons.1 h
    rw [List.mem_cons, lookup_cons_eq, ih htail]
    by_cases hkey : key = k
    · have hnot : entries.lookup key ≠ some value := fun hsome =>
        (hhead _ ((ih htail).2 hsome)).ne hkey.symm
      simp [hkey, hkey ▸ hnot, eq_comm]
    · simp [hkey]

/-- The entries after a value was rewritten. -/
theorem mem_alter {m : BTreeMap κ ν} {key : κ} {f : Option ν → ν} {entry : κ × ν} :
    entry ∈ (m.alter key f).entries ↔
      entry = (key, f (m.get key)) ∨ entry ∈ m.entries ∧ entry.1 ≠ key := by
  rw [mem_entries_iff, get_alter]
  by_cases hkey : entry.1 = key
  · obtain ⟨k, v⟩ := entry
    subst hkey
    simp [eq_comm]
  · rw [if_neg hkey, mem_entries_iff]
    refine ⟨fun h => Or.inr ⟨h, hkey⟩, fun h => ?_⟩
    rcases h with rfl | h
    · exact absurd rfl hkey
    · exact h.1

/-! ### Inserting -/

/-- Set a key. -/
def insert (m : BTreeMap κ ν) (key : κ) (value : ν) : BTreeMap κ ν := m.alter key fun _ => value

/-- A key after all others. -/
theorem alterEntries_last {key : κ} {entries : List (κ × ν)} (h : ∀ e ∈ entries, e.1 < key)
    (f : Option ν → ν) : alterEntries key f entries = entries ++ [(key, f none)] := by
  induction entries with
  | nil => rfl
  | cons e entries ih =>
    obtain ⟨k, v⟩ := e
    rw [List.forall_mem_cons] at h
    rw [alterEntries_cons, if_neg (not_lt.2 h.1.le), if_neg (ne_of_gt h.1), ih h.2,
      List.cons_append]

theorem foldl_insert {entries : List (κ × ν)} (h : entries.Pairwise fun a b => a.1 < b.1) :
    ∀ m : BTreeMap κ ν, (∀ e ∈ m.entries, ∀ e' ∈ entries, e.1 < e'.1) →
      (entries.foldl (fun m e => m.insert e.1 e.2) m).entries = m.entries ++ entries := by
  induction entries with
  | nil =>
    intro m _
    rw [List.foldl_nil, List.append_nil]
  | cons e entries ih =>
    intro m hm
    obtain ⟨hhead, htail⟩ := List.pairwise_cons.1 h
    have hlast : (m.insert e.1 e.2).entries = m.entries ++ [e] :=
      alterEntries_last (fun d hd => hm d hd e List.mem_cons_self) fun _ => e.2
    rw [List.foldl_cons, ih htail, hlast, List.append_assoc, List.singleton_append]
    intro d hd e' he'
    rw [hlast, List.mem_append, List.mem_singleton] at hd
    rcases hd with hd | rfl
    · exact hm d hd e' (List.mem_cons_of_mem _ he')
    · exact hhead e' he'

theorem eq_of_entries {m m' : BTreeMap κ ν} (h : m.entries = m'.entries) : m = m' := by
  cases m
  cases m'
  cases h
  rfl

theorem foldl_insert_entries (m : BTreeMap κ ν) :
    m.entries.foldl (fun m e => m.insert e.1 e.2) empty = m :=
  eq_of_entries (foldl_insert m.ascending empty (by simp [empty]))

end BTreeMap
