import Mathlib.Tactic

/-!
# The files of one directory

A folder is a list of names with contents.  What is read under a name after a removal, a write or a
renaming is said by one lemma each.
-/

/-- The files of a directory. -/
abbrev Folder (α : Type) := List (String × α)

namespace Folder

variable {α : Type}

/-- The contents under a name. -/
def read (folder : Folder α) (name : String) : Option α := folder.lookup name

/-- There is such a file. -/
def isFile (folder : Folder α) (name : String) : Bool := (folder.read name).isSome

/-- Without a file. -/
def remove (folder : Folder α) (name : String) : Folder α := folder.filter (·.1 ≠ name)

/-- With a file. -/
def write (folder : Folder α) (name : String) (contents : α) : Folder α :=
  (name, contents) :: folder.remove name

/-- Move a file. -/
def rename (folder : Folder α) (source target : String) : Folder α :=
  match folder.read source with
  | some contents => (folder.remove source).write target contents
  | none => folder

variable {folder : Folder α} {name other source target : String} {contents : α}

theorem read_cons (file : String × α) (folder : Folder α) (name : String) :
    Folder.read (file :: folder) name = if name = file.1 then some file.2 else folder.read name := by
  obtain ⟨name', contents⟩ := file
  by_cases h : name = name'
  · simp [Folder.read, h]
  · simp [Folder.read, List.lookup_cons, h, beq_eq_false_iff_ne.mpr h]

theorem read_remove (folder : Folder α) (name other : String) :
    (folder.remove name).read other = if other = name then none else folder.read other := by
  induction folder with
  | nil => simp [remove, read]
  | cons file folder ih =>
    by_cases hfile : file.1 = name
    · have hremove : Folder.remove (file :: folder) name = Folder.remove folder name := by
        simp [remove, hfile]
      rw [hremove, ih, read_cons, hfile]
      split_ifs <;> rfl
    · have hremove : Folder.remove (file :: folder) name = file :: Folder.remove folder name := by
        simp [remove, hfile]
      rw [hremove, read_cons, read_cons, ih]
      by_cases hother : other = name
      · rw [if_pos hother, if_pos hother, if_neg fun h => hfile (h.symm.trans hother)]
      · rw [if_neg hother, if_neg hother]

theorem read_write (folder : Folder α) (name other : String) (contents : α) :
    (folder.write name contents).read other =
      if other = name then some contents else folder.read other := by
  rw [write, read_cons, read_remove]
  split_ifs <;> rfl

theorem read_rename (h : folder.read source = some contents) (other : String) :
    (folder.rename source target).read other =
      if other = target then some contents
      else if other = source then none else folder.read other := by
  rw [rename, h, read_write, read_remove]

theorem isFile_iff : folder.isFile name = true ↔ ∃ contents, folder.read name = some contents :=
  Option.isSome_iff_exists

/-- What is left by a removal was there. -/
theorem read_of_remove (h : (folder.remove name).read other = some contents) :
    other ≠ name ∧ folder.read other = some contents := by
  rw [read_remove] at h
  split_ifs at h with hother
  exact ⟨hother, h⟩

/-- What is there after a renaming was there under its name, or under the old one. -/
theorem read_of_rename (h : (folder.rename source target).read other = some contents) :
    folder.read other = some contents ∨
      other = target ∧ folder.read source = some contents := by
  cases hsource : folder.read source with
  | none =>
    rw [rename, hsource] at h
    exact Or.inl h
  | some found =>
    rw [read_rename hsource] at h
    split_ifs at h with htarget hother
    · cases h
      exact Or.inr ⟨htarget, rfl⟩
    · exact Or.inl h

/-- Every file has its name in the list. -/
theorem mem_names (h : folder.read name = some contents) : name ∈ folder.map Prod.fst := by
  induction folder with
  | nil => cases h
  | cons file folder ih =>
    rw [read_cons] at h
    rw [List.map_cons, List.mem_cons]
    split_ifs at h with hname
    · exact Or.inl hname
    · exact Or.inr (ih h)

end Folder
