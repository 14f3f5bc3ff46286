import EraseMe.Library.Paths
import Mathlib.Data.List.Basic

/-!
# Clean paths

The normal form of a path by its text alone: the root or some `..`, then names.

* `resolve`, where a path leads from a directory of a tree without links;
* `CleanPath`, a path in normal form, with `up` and `down` as the two moves from it;
* `CleanPath.eq_of_leadsTo`: a clean path is known from where it leads.
-/

namespace Paths

/-- Where a component leads from a directory, which is given by its names from the root. -/
def walk (dir : List (List Char)) : Component → List (List Char)
  | .rootDir => []
  | .curDir => dir
  | .parentDir => dir.dropLast
  | .normal name => dir ++ [name]

/-- Where a path leads from a directory of a tree without links. -/
def resolve (dir : List (List Char)) (p : Path) : List (List Char) :=
  (components p).foldl walk dir

/-- A path in normal form. -/
@[ext] structure CleanPath where
  rooted : Bool
  ups : ℕ
  names : List (List Char)
  simple : ∀ name ∈ names, Simple name
  ups_of_rooted : rooted = true → ups = 0

namespace CleanPath

/-- The components behind the root. -/
def tail (c : CleanPath) : List Component :=
  List.replicate c.ups .parentDir ++ c.names.map .normal

/-- The parts of the path. -/
def components (c : CleanPath) : List Component :=
  if c.rooted then .rootDir :: c.tail else c.tail

/-- The path that leads nowhere else is written `.`. -/
def text (c : CleanPath) : Path :=
  if c.components = [] then ['.'] else ofComponents c.components

/-- Where a clean path leads. -/
def leadsTo (c : CleanPath) (dir : List (List Char)) : List (List Char) :=
  (if c.rooted then [] else dir.take (dir.length - c.ups)) ++ c.names

/-- The path of nothing. -/
def here : CleanPath := ⟨false, 0, [], by simp, by simp⟩

/-- The root. -/
def root : CleanPath := ⟨true, 0, [], by simp, by simp⟩

/-- The path followed by `..`; above the root is the root. -/
def up (c : CleanPath) : CleanPath :=
  if h : c.names = [] ∧ c.rooted = false then
    { c with
      ups := c.ups + 1
      ups_of_rooted := fun hrooted => absurd (h.2.symm.trans hrooted) Bool.false_ne_true }
  else { c with
    names := c.names.dropLast
    simple := fun name h => c.simple name (List.mem_of_mem_dropLast h) }

/-- The path followed by names. -/
def down (c : CleanPath) (names : List (List Char)) (h : ∀ name ∈ names, Simple name) :
    CleanPath :=
  { c with
    names := c.names ++ names
    simple := fun name hname => (List.mem_append.1 hname).elim (c.simple name) (h name) }

variable {c d : CleanPath} {dir : List (List Char)}

theorem plain_of_mem_tail (c : CleanPath) : ∀ x ∈ c.tail, x.Plain := by
  intro x hx
  rcases List.mem_append.1 hx with hx | hx
  · rw [List.eq_of_mem_replicate hx]
    trivial
  · obtain ⟨name, hname, rfl⟩ := List.mem_map.1 hx
    exact c.simple name hname

theorem rooted_up (c : CleanPath) : c.up.rooted = c.rooted := by
  unfold up
  split_ifs <;> rfl

theorem tail_down (c : CleanPath) {names : List (List Char)} (h : ∀ name ∈ names, Simple name) :
    (c.down names h).tail = c.tail ++ names.map .normal := by
  simp [tail, down]

theorem components_down (c : CleanPath) {names : List (List Char)}
    (h : ∀ name ∈ names, Simple name) :
    (c.down names h).components = c.components ++ names.map .normal := by
  have hrooted : (c.down names h).rooted = c.rooted := rfl
  simp only [components, hrooted, tail_down]
  split_ifs <;> rfl

theorem components_up (h : c.names ≠ []) :
    c.components = c.up.components ++ [.normal (c.names.getLast h)] := by
  have hlast : c.up.down [c.names.getLast h]
      (by simpa using c.simple _ (List.getLast_mem h)) = c := by
    have hup : ¬(c.names = [] ∧ c.rooted = false) := fun hc => h hc.1
    ext1
    · exact c.rooted_up
    · simp [down, up, hup]
    · simp [down, up, hup, List.dropLast_append_getLast]
  conv_lhs => rw [← hlast, components_down]
  rfl

theorem curDir_not_mem (c : CleanPath) : Component.curDir ∉ c.components := by
  have htail : Component.curDir ∉ c.tail := fun h => c.plain_of_mem_tail .curDir h
  unfold components
  split_ifs
  · simpa using htail
  · exact htail

/-! ### Texts of clean paths -/

theorem ofComponents_eq_nil_iff (c : CleanPath) :
    ofComponents c.components = [] ↔ c.components = [] := by
  refine ⟨fun h => ?_, fun h => by rw [h]; rfl⟩
  by_contra hne
  unfold components at h hne
  split_ifs at h hne
  · exact ofComponents_root_ne_nil _ h
  · exact (ends_ofComponents c.plain_of_mem_tail hne).1 h

/-- A clean path is read back from its text; only `.` has a component of its own. -/
theorem components_text (c : CleanPath) :
    Paths.components c.text = if c.components = [] then [.curDir] else c.components := by
  unfold text
  split_ifs with hempty
  · rfl
  · unfold components
    split_ifs
    · exact components_ofComponents_rootDir c.plain_of_mem_tail
    · exact components_ofComponents c.plain_of_mem_tail

/-- A clean text is known from its components. -/
theorem text_eq_of_components (h : Paths.components c.text = Paths.components d.text) :
    c.text = d.text := by
  rw [components_text, components_text] at h
  split_ifs at h with hc hd hd
  · rw [text, text, if_pos hc, if_pos hd]
  · exact absurd (h ▸ List.mem_singleton_self _) d.curDir_not_mem
  · exact absurd (h ▸ List.mem_singleton_self _) c.curDir_not_mem
  · rw [text, text, h]

theorem components_ne_nil (hc : c.rooted = true) : c.components ≠ [] := by
  simp [components, hc]

theorem tail_of_rooted (hc : c.rooted = true) : c.tail = c.names.map .normal := by
  simp [tail, c.ups_of_rooted hc]

theorem components_text_of_rooted (hc : c.rooted = true) :
    Paths.components c.text = .rootDir :: c.names.map .normal := by
  rw [components_text, if_neg (components_ne_nil hc), components, if_pos hc, tail_of_rooted hc]

/-- The parts of an absolute clean path. -/
theorem splitOn_text (hc : c.rooted = true) (hne : c.names ≠ []) :
    Text.splitOn '/' c.text = [] :: c.names := by
  have htail : c.tail ≠ [] := by simpa [tail_of_rooted hc] using hne
  have hnames : c.tail.map Component.text = c.names := by
    simp [tail_of_rooted hc, Function.comp_def, Component.text]
  rw [text, if_neg (components_ne_nil hc), components, if_pos hc,
    ofComponents_rootDir c.plain_of_mem_tail, Text.splitOn_cons, if_pos rfl,
    splitOn_ofComponents c.plain_of_mem_tail htail, hnames]

/-- Joining a path of names to an absolute path. -/
theorem join_text (hc : c.rooted = true) (hd : d.rooted = false) (hups : d.ups = 0)
    (hne : d.names ≠ []) : join c.text d.text = (c.down d.names d.simple).text := by
  have hdcomponents : d.components = d.names.map .normal := by
    simp [components, tail, hd, hups]
  have hdne : d.components ≠ [] := by simpa [hdcomponents] using hne
  have hplain : ∀ x ∈ d.components, x.Plain := by
    simpa [components, hd] using d.plain_of_mem_tail
  have hdown : (c.down d.names d.simple).components = c.components ++ d.components := by
    rw [components_down, hdcomponents]
  rw [text, text, text, if_neg hdne, if_neg (components_ne_nil hc),
    if_neg (components_ne_nil (c := c.down d.names d.simple) hc), hdown]
  exact join_ofComponents _ hplain hdne

/-! ### Where a clean path leads -/

theorem foldl_walk_normal (names dir : List (List Char)) :
    (names.map Component.normal).foldl walk dir = dir ++ names := by
  induction names generalizing dir with
  | nil => simp
  | cons name names ih => simp [walk, ih]

theorem foldl_walk_parentDir (n : ℕ) (dir : List (List Char)) :
    (List.replicate n Component.parentDir).foldl walk dir = dir.take (dir.length - n) := by
  induction n generalizing dir with
  | zero => simp
  | succ n ih =>
    rw [List.replicate_succ, List.foldl_cons, ih, walk, List.length_dropLast,
      List.dropLast_eq_take, List.take_take]
    congr 1
    omega

theorem foldl_walk_components (c : CleanPath) (dir : List (List Char)) :
    c.components.foldl walk dir = c.leadsTo dir := by
  have htail : ∀ dir, c.tail.foldl walk dir = dir.take (dir.length - c.ups) ++ c.names := by
    intro dir
    rw [tail, List.foldl_append, foldl_walk_parentDir, foldl_walk_normal]
  unfold components leadsTo
  split_ifs with hrooted
  · rw [List.foldl_cons, htail, walk, List.take_nil]
  · exact htail dir

theorem resolve_text (c : CleanPath) (dir : List (List Char)) :
    resolve dir c.text = c.leadsTo dir := by
  rw [← foldl_walk_components, resolve, components_text]
  split_ifs with hempty
  · rw [hempty]
    rfl
  · rfl

theorem leadsTo_up (c : CleanPath) (dir : List (List Char)) :
    c.up.leadsTo dir = (c.leadsTo dir).dropLast := by
  unfold up
  split_ifs with h
  · simp only [leadsTo, h.1, h.2, Bool.false_eq_true, if_false, List.append_nil,
      List.dropLast_eq_take, List.take_take, List.length_take]
    congr 1
    omega
  · rcases eq_or_ne c.names [] with hnames | hnames
    · have hrooted : c.rooted = true := by simpa [hnames] using h
      simp [leadsTo, hnames, hrooted]
    · simp [leadsTo, List.dropLast_append_of_ne_nil hnames]

theorem leadsTo_down (c : CleanPath) {names : List (List Char)} (h : ∀ name ∈ names, Simple name)
    (dir : List (List Char)) : (c.down names h).leadsTo dir = c.leadsTo dir ++ names := by
  rw [leadsTo, leadsTo, List.append_assoc]
  rfl

/-- A clean path is known from where it leads: a directory whose names are no names of a path
tells the names of the path from those of the directory. -/
theorem eq_of_leadsTo (h : ∀ dir, c.leadsTo dir = d.leadsTo dir) : c = d := by
  have hkept : ∀ (e : CleanPath) (n : ℕ), e.leadsTo (List.replicate n []) =
      List.replicate (if e.rooted then 0 else n - e.ups) [] ++ e.names := by
    intro e n
    unfold leadsTo
    split_ifs
    · rfl
    · rw [List.length_replicate, List.take_replicate, Nat.min_eq_left (Nat.sub_le _ _)]
  have hnone : ∀ e : CleanPath, e.names.count [] = 0 := fun e =>
    List.count_eq_zero.2 fun hmem => (e.simple [] hmem).1 rfl
  have heq := h (List.replicate (c.ups + d.ups + 1) [])
  rw [hkept, hkept] at heq
  have hlength : (if c.rooted then 0 else c.ups + d.ups + 1 - c.ups) =
      if d.rooted then 0 else c.ups + d.ups + 1 - d.ups := by
    have hcount := congrArg (List.count []) heq
    simpa only [List.count_append, List.count_replicate_self, hnone, Nat.add_zero] using hcount
  rw [hlength] at heq
  have hnames : c.names = d.names := List.append_cancel_left heq
  have hboth : c.rooted = d.rooted ∧ c.ups = d.ups := by
    cases hc : c.rooted with
    | false =>
      cases hd : d.rooted with
      | false =>
        simp only [hc, hd, Bool.false_eq_true, if_false] at hlength
        exact ⟨rfl, by omega⟩
      | true =>
        simp only [hc, hd, Bool.false_eq_true, if_false, if_true] at hlength
        omega
    | true =>
      cases hd : d.rooted with
      | false =>
        simp only [hc, hd, Bool.false_eq_true, if_false, if_true] at hlength
        omega
      | true => exact ⟨rfl, (c.ups_of_rooted hc).trans (d.ups_of_rooted hd).symm⟩
  exact CleanPath.ext hboth.1 hboth.2 hnames

end CleanPath

end Paths
