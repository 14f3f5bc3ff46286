import Mathlib.Tactic

/-!
# Trees of files

What is at every path of a tree, with the changes of whole directories.  A path is a list of names;
`sub t p` is the tree below `p`, with `p` itself at the empty path, and `graft t p u` puts the tree
`u` there.  What works below one directory only is described by what it does to `sub t p`, and what
only adds to a tree by what it adds (`Grows`).
-/

namespace FileTree

/-- What is at a place. -/
inductive Node
  | file (bytes : List UInt8)
  | directory
  | special
  deriving DecidableEq, Repr

/-- What is at each path. -/
abbrev Tree (ν : Type) := List ν → Option Node

variable {ν : Type}

/-- Nothing at all. -/
def absent : Tree ν := fun _ => none

/-- The tree below a path. -/
def sub (t : Tree ν) (p : List ν) : Tree ν := fun l => t (p ++ l)

/-- What remains of a tree of which only some paths are kept. -/
def prune (t : Tree ν) (kept : List ν → Bool) : Tree ν := fun l => if kept l then t l else none

/-- Neither path leads through the other. -/
def Apart (p q : List ν) : Prop := ¬ p <+: q ∧ ¬ q <+: p

variable [DecidableEq ν]

/-- A node with nothing below it. -/
def leaf (node : Node) : Tree ν := fun l => if l = [] then some node else none

/-- Put something at a place. -/
def put (t : Tree ν) (p : List ν) (node : Node) : Tree ν :=
  fun l => if l = p then some node else t l

/-- Put a tree at a place. -/
def graft (t : Tree ν) (p : List ν) (u : Tree ν) : Tree ν :=
  fun l => if p <+: l then u (l.drop p.length) else t l

/-- Move what is below one path below another, where nothing else stays. -/
def move (t : Tree ν) (source target : List ν) : Tree ν :=
  graft (graft t source absent) target (sub t source)

/-- Make a directory where there is nothing. -/
def makeDir (t : Tree ν) (p : List ν) : Tree ν :=
  if t p = none then put t p .directory else t

/-- Make the missing directories on the way from a directory to one below it. -/
def makeDirsFrom (t : Tree ν) (p : List ν) : List ν → Tree ν
  | [] => t
  | a :: l => makeDirsFrom (makeDir t (p ++ [a])) (p ++ [a]) l

/-- Make all directories of a path. -/
def makeDirs (t : Tree ν) (p : List ν) : Tree ν := makeDirsFrom t [] p

/-! ### Paths apart -/

section Apart

variable {p q : List ν}

omit [DecidableEq ν] in
theorem Apart.symm (h : Apart p q) : Apart q p := ⟨h.2, h.1⟩

omit [DecidableEq ν] in
/-- Nothing is below both of two paths apart. -/
theorem Apart.not_under (h : Apart p q) (l : List ν) : ¬ p <+: q ++ l := by
  intro hp
  rcases List.prefix_or_prefix_of_prefix hp (List.prefix_append q l) with hpq | hqp
  · exact h.1 hpq
  · exact h.2 hqp

omit [DecidableEq ν] in
theorem apart_append_singleton (p : List ν) {a b : ν} (h : a ≠ b) :
    Apart (p ++ [a]) (p ++ [b]) := by
  constructor
  · intro hprefix
    have := (List.prefix_append_right_inj p).1 hprefix
    simp [h] at this
  · intro hprefix
    have := (List.prefix_append_right_inj p).1 hprefix
    simp [h.symm] at this

omit [DecidableEq ν] in
/-- What is below one of two paths apart is apart from the other. -/
theorem Apart.append (h : Apart p q) (l : List ν) : Apart p (q ++ l) :=
  ⟨h.not_under l, fun hq => h.2 ((List.prefix_append q l).trans hq)⟩

end Apart

/-! ### Grafts -/

section Graft

variable {t u v : Tree ν} {p q l : List ν}

theorem graft_of_not_under (h : ¬ p <+: l) : graft t p u l = t l := if_neg h

@[simp] theorem graft_append (t u : Tree ν) (p l : List ν) : graft t p u (p ++ l) = u l := by
  simp [graft]

@[simp] theorem sub_graft (t u : Tree ν) (p : List ν) : sub (graft t p u) p = u := by
  funext l
  exact graft_append t u p l

@[simp] theorem graft_sub (t : Tree ν) (p : List ν) : graft t p (sub t p) = t := by
  funext l
  by_cases h : p <+: l
  · obtain ⟨l, rfl⟩ := h
    exact graft_append t (sub t p) p l
  · exact graft_of_not_under h

theorem sub_graft_of_apart (h : Apart p q) : sub (graft t p u) q = sub t q := by
  funext l
  exact graft_of_not_under (h.not_under l)

theorem put_of_ne {node : Node} (h : l ≠ p) : put t p node l = t l := if_neg h

@[simp] theorem put_put (t : Tree ν) (p : List ν) (a b : Node) :
    put (put t p a) p b = put t p b := by
  funext l
  by_cases h : l = p
  · simp [put, h]
  · simp [put, h]

/-- A node put below a graft is put into the graft. -/
theorem put_graft (t u : Tree ν) (p l : List ν) (node : Node) :
    put (graft t p u) (p ++ l) node = graft t p (put u l node) := by
  funext k
  by_cases h : p <+: k
  · obtain ⟨k, rfl⟩ := h
    simp [put]
  · rw [graft_of_not_under h, put_of_ne, graft_of_not_under h]
    rintro rfl
    exact h (List.prefix_append p l)

end Graft

/-! ### Moves -/

section Move

variable {t : Tree ν} {source target p l : List ν}

@[simp] theorem sub_move_target (t : Tree ν) (source target : List ν) :
    sub (move t source target) target = sub t source := sub_graft _ _ _

theorem sub_move_source (h : Apart target source) : sub (move t source target) source = absent := by
  rw [move, sub_graft_of_apart h, sub_graft]

theorem sub_move_of_apart (hs : Apart source p) (ht : Apart target p) :
    sub (move t source target) p = sub t p := by
  rw [move, sub_graft_of_apart ht, sub_graft_of_apart hs]

end Move

/-! ### Directories on a way -/

section MakeDirs

variable {t : Tree ν} {p q l : List ν}

theorem makeDir_of_ne (h : l ≠ p) : makeDir t p l = t l := by
  unfold makeDir
  split_ifs
  · exact put_of_ne h
  · rfl

theorem makeDirsFrom_of_not_under (h : ¬ l <+: p ++ q) : makeDirsFrom t p q l = t l := by
  induction q generalizing t p with
  | nil => rfl
  | cons a q ih =>
    rw [makeDirsFrom, ih (by simpa using h), makeDir_of_ne]
    rintro rfl
    exact h ⟨q, by simp⟩

/-- Where something was, it stays; what is new is a directory. -/
theorem makeDirsFrom_eq_or (t : Tree ν) (p q l : List ν) :
    makeDirsFrom t p q l = t l ∨ t l = none ∧ makeDirsFrom t p q l = some .directory := by
  induction q generalizing t p with
  | nil => exact .inl rfl
  | cons a q ih =>
    have hdir : makeDir t (p ++ [a]) l = t l ∨
        t l = none ∧ makeDir t (p ++ [a]) l = some .directory := by
      by_cases hl : l = p ++ [a]
      · subst hl
        by_cases ht : t (p ++ [a]) = none
        · exact .inr ⟨ht, by simp [makeDir, put, ht]⟩
        · exact .inl (by rw [makeDir, if_neg ht])
      · exact .inl (makeDir_of_ne hl)
    rw [makeDirsFrom]
    rcases ih (makeDir t (p ++ [a])) (p ++ [a]) with h | ⟨hnone, h⟩
    · rw [h]
      exact hdir
    · rcases hdir with hd | ⟨-, hd⟩
      · exact .inr ⟨hd.symm.trans hnone, h⟩
      · rw [hd] at hnone
        cases hnone

theorem makeDir_ne_none (t : Tree ν) (p : List ν) : makeDir t p p ≠ none := by
  unfold makeDir
  split_ifs with h
  · simp [put]
  · exact h

/-- The end of the way is there. -/
theorem makeDirsFrom_ne_none (t : Tree ν) (p : List ν) (h : q ≠ []) :
    makeDirsFrom t p q (p ++ q) ≠ none := by
  induction q generalizing t p with
  | nil => exact absurd rfl h
  | cons a q ih =>
    rw [makeDirsFrom]
    by_cases hq : q = []
    · subst hq
      exact makeDir_ne_none t _
    · have hend := ih (makeDir t (p ++ [a])) (p ++ [a]) hq
      rwa [List.append_assoc] at hend

end MakeDirs

/-! ### Trees that grow -/

section Grows

/-- What was there stays; what is new is as `N` says. -/
def Grows (N : List ν → Node → Prop) (t s : Tree ν) : Prop :=
  ∀ l, s l = t l ∨ t l = none ∧ ∃ node, s l = some node ∧ N l node

variable {N N' : List ν → Node → Prop} {t s u : Tree ν} {p l : List ν}

omit [DecidableEq ν] in
theorem Grows.refl (N : List ν → Node → Prop) (t : Tree ν) : Grows N t t := fun _ => .inl rfl

omit [DecidableEq ν] in
theorem Grows.apply (h : Grows N t s) (hl : t l ≠ none) : s l = t l := by
  rcases h l with h | ⟨hnone, -⟩
  · exact h
  · exact absurd hnone hl

omit [DecidableEq ν] in
theorem Grows.mono (h : Grows N t s) (hN : ∀ l node, N l node → N' l node) : Grows N' t s := by
  intro l
  rcases h l with h | ⟨hnone, node, hs, hnode⟩
  · exact .inl h
  · exact .inr ⟨hnone, node, hs, hN l node hnode⟩

/-- A new node. -/
theorem Grows.put {node : Node} (h : Grows N t s) (hp : t p = none) (hN : N p node) :
    Grows N t (put s p node) := by
  intro l
  by_cases hl : l = p
  · subst hl
    exact .inr ⟨hp, node, if_pos rfl, hN⟩
  · rw [put_of_ne hl]
    exact h l

theorem grows_makeDirs (t : Tree ν) (p : List ν) :
    Grows (fun l node => l <+: p ∧ node = .directory) t (makeDirs t p) := by
  intro l
  by_cases hl : l <+: p
  · rcases makeDirsFrom_eq_or t [] p l with h | ⟨hnone, h⟩
    · exact .inl h
    · exact .inr ⟨hnone, .directory, h, hl, rfl⟩
  · exact .inl (makeDirsFrom_of_not_under (by simpa using hl))

end Grows

end FileTree
