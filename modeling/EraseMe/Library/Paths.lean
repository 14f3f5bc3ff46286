import EraseMe.Library.Text

/-!
# Paths

`std::path` on texts: the components of a path, and how components are put together again.  Only
`/` and `.` are looked at, so that a byte that is no text can stand as the character of its number.
-/

namespace Paths

/-- A path as text. -/
abbrev Path := List Char

/-- A part of a path. -/
inductive Component
  | rootDir
  | curDir
  | parentDir
  | normal (name : List Char)
  deriving DecidableEq, Repr

/-- The text of a part. -/
def Component.text : Component → Path
  | .rootDir => ['/']
  | .curDir => ['.']
  | .parentDir => ['.', '.']
  | .normal name => name

/-- The path starts at the root. -/
def isAbsolute (p : Path) : Bool := p.head? = some '/'

/-- A part between two slashes; empty parts and `.` do not count. -/
def component (part : List Char) : Option Component :=
  if part = [] ∨ part = ['.'] then none
  else if part = ['.', '.'] then some .parentDir
  else some (.normal part)

/-- A `.` counts at the start of a relative path. -/
def components (p : Path) : List Component :=
  let parts := Text.splitOn '/' p
  if isAbsolute p then .rootDir :: parts.filterMap component
  else (if parts.head? = some ['.'] then [.curDir] else []) ++ parts.filterMap component

/-- `Path::join`: an absolute path replaces what it is joined to. -/
def join (p q : Path) : Path :=
  if isAbsolute q ∨ p = [] then q
  else if p.getLast? = some '/' then p ++ q
  else p ++ '/' :: q

/-- `Path::starts_with`: the first components are those of the other path. -/
def startsWith (p q : Path) : Bool := (components q).isPrefixOf (components p)

/-- The path with the given components. -/
def ofComponents (cs : List Component) : Path := cs.foldl (fun p c => join p c.text) []

/-- A name that is one component. -/
def Simple (name : List Char) : Prop :=
  name ≠ [] ∧ name ≠ ['.'] ∧ name ≠ ['.', '.'] ∧ '/' ∉ name

instance (name : List Char) : Decidable (Simple name) := by
  unfold Simple
  infer_instance

/-- A component that does not depend on where it stands: `..` or a name. -/
def Component.Plain : Component → Prop
  | .parentDir => True
  | .normal name => Simple name
  | _ => False

variable {p name : Path}

theorem splitOn_ne_nil (sep : Char) (s : List Char) : Text.splitOn sep s ≠ [] := by
  cases s with
  | nil => simp
  | cons c s =>
    rw [Text.splitOn_cons]
    split_ifs
    · simp
    · split <;> simp

theorem splitOn_append_sep (sep : Char) (s t : List Char) :
    Text.splitOn sep (s ++ sep :: t) = Text.splitOn sep s ++ Text.splitOn sep t := by
  induction s with
  | nil => simp [Text.splitOn_cons]
  | cons c s ih =>
    rw [List.cons_append, Text.splitOn_cons, Text.splitOn_cons]
    split_ifs with hc
    · rw [ih, List.cons_append]
    · rw [ih]
      cases hs : Text.splitOn sep s with
      | nil => exact absurd hs (splitOn_ne_nil sep s)
      | cons part parts => rfl

theorem splitOn_of_not_mem {sep : Char} {s : List Char} (h : sep ∉ s) :
    Text.splitOn sep s = [s] := by
  induction s with
  | nil => rfl
  | cons c s ih =>
    rw [List.mem_cons, not_or] at h
    rw [Text.splitOn_cons, if_neg (Ne.symm h.1), ih h.2]

theorem not_mem_splitOn (sep : Char) (s : List Char) : ∀ part ∈ Text.splitOn sep s, sep ∉ part := by
  induction s with
  | nil => simp
  | cons c s ih =>
    rw [Text.splitOn_cons]
    split_ifs with hc
    · simpa using ih
    · cases hs : Text.splitOn sep s with
      | nil => simpa using fun h => hc h.symm
      | cons part parts =>
        rw [hs] at ih
        simp only [List.mem_cons, forall_eq_or_imp] at ih ⊢
        exact ⟨by simpa using ⟨fun h => hc h.symm, ih.1⟩, ih.2⟩

theorem component_of_simple (h : Simple name) : component name = some (.normal name) := by
  simp [component, h.1, h.2.1, h.2.2.1]

theorem isAbsolute_append (h : isAbsolute p = true) (t : List Char) :
    isAbsolute (p ++ t) = true := by
  cases p with
  | nil => cases h
  | cons c p => exact h

theorem isAbsolute_of_simple (h : Simple name) : isAbsolute name = false := by
  obtain ⟨hne, -, -, hslash⟩ := h
  cases name with
  | nil => exact absurd rfl hne
  | cons c name =>
    simp only [isAbsolute, List.head?_cons, Option.some.injEq, decide_eq_false_iff_not]
    rintro rfl
    simp at hslash

/-- A name after a slash is one more component. -/
theorem components_append (hp : isAbsolute p = true) (hname : Simple name) :
    components (p ++ '/' :: name) = components p ++ [.normal name] := by
  simp only [components, hp, isAbsolute_append hp, if_true, splitOn_append_sep,
    splitOn_of_not_mem hname.2.2.2, List.filterMap_append, List.cons_append]
  simp [component_of_simple hname]

theorem ofComponents_append (cs : List Component) (c : Component) :
    ofComponents (cs ++ [c]) = join (ofComponents cs) c.text := by
  simp [ofComponents]

theorem join_ne_nil (hp : p ≠ []) (q : Path) : join p q ≠ [] := by
  unfold join
  split_ifs with h hlast
  · rcases h with h | h
    · rintro rfl
      cases h
    · exact absurd h hp
  · exact List.append_ne_nil_of_left_ne_nil hp _
  · exact List.append_ne_nil_of_left_ne_nil hp _

theorem ofComponents_root_ne_nil (cs : List Component) :
    ofComponents (.rootDir :: cs) ≠ [] := by
  have hfold : ∀ p : Path, p ≠ [] → cs.foldl (fun p c => join p c.text) p ≠ [] := by
    induction cs with
    | nil => exact fun p hp => hp
    | cons c cs ih => exact fun p hp => ih _ (join_ne_nil hp _)
  exact hfold ['/'] (List.cons_ne_nil _ _)

/-- Only the last component of a joined name differs between different names. -/
theorem join_injective {q r : Path} (hq : Simple q) (hr : Simple r) (h : join p q = join p r) :
    q = r := by
  simp only [join, isAbsolute_of_simple hq, isAbsolute_of_simple hr, Bool.false_eq_true,
    false_or] at h
  split_ifs at h
  · exact h
  · exact List.append_cancel_left h
  · exact (List.cons.inj (List.append_cancel_left h)).2

/-- The slash that `join` puts behind a path. -/
def separator (p : Path) : List Char := if p.getLast? = some '/' then [] else ['/']

theorem join_eq_append {q : Path} (hp : p ≠ []) (hq : isAbsolute q = false) :
    join p q = p ++ (separator p ++ q) := by
  simp only [join, separator, hp, hq, Bool.false_eq_true, or_self, if_false]
  split_ifs <;> rfl

theorem separator_append {q : Path} (p : Path) (hq : q ≠ []) :
    separator (p ++ q) = separator q := by
  simp [separator, List.getLast?_append, List.getLast?_eq_some_getLast hq]

theorem isAbsolute_append_of_ne_nil (hp : p ≠ []) (t : List Char) :
    isAbsolute (p ++ t) = isAbsolute p := by
  cases p with
  | nil => exact absurd rfl hp
  | cons c p => rfl

theorem join_assoc {q t : Path} (p : Path) (hq : q ≠ []) (ht : isAbsolute t = false) :
    join (join p q) t = join p (join q t) := by
  have hqt : join q t = q ++ (separator q ++ t) := join_eq_append hq ht
  have habs : isAbsolute (join q t) = isAbsolute q := by
    rw [hqt, isAbsolute_append_of_ne_nil hq]
  by_cases hkeep : isAbsolute q = true ∨ p = []
  · have hleft : join p q = q := if_pos hkeep
    have hright : join p (join q t) = join q t := if_pos (by rwa [habs])
    rw [hleft, hright]
  · rw [not_or, Bool.not_eq_true] at hkeep
    obtain ⟨hq', hp⟩ := hkeep
    rw [join_eq_append (join_ne_nil hp q) ht, join_eq_append hp hq',
      join_eq_append hp (habs.trans hq'), hqt, ← List.append_assoc p, separator_append _ hq]
    simp only [List.append_assoc]

/-! ### Reading a path that was put together -/

section Plain

variable {c : Component} {cs : List Component}

theorem Component.Plain.simple_or (h : c.Plain) :
    c = .parentDir ∨ ∃ name, Simple name ∧ c = .normal name := by
  cases c with
  | rootDir => exact h.elim
  | curDir => exact h.elim
  | parentDir => exact Or.inl rfl
  | normal name => exact Or.inr ⟨name, h, rfl⟩

theorem slash_not_mem_text (h : c.Plain) : '/' ∉ c.text := by
  rcases h.simple_or with rfl | ⟨name, hname, rfl⟩
  · decide
  · exact hname.2.2.2

theorem text_ne_nil (h : c.Plain) : c.text ≠ [] := by
  rcases h.simple_or with rfl | ⟨name, hname, rfl⟩
  · decide
  · exact hname.1

theorem text_ne_dot (h : c.Plain) : c.text ≠ ['.'] := by
  rcases h.simple_or with rfl | ⟨name, hname, rfl⟩
  · decide
  · exact hname.2.1

theorem isAbsolute_text (h : c.Plain) : isAbsolute c.text = false := by
  rcases h.simple_or with rfl | ⟨name, hname, rfl⟩
  · rfl
  · exact isAbsolute_of_simple hname

theorem component_text (h : c.Plain) : component c.text = some c := by
  rcases h.simple_or with rfl | ⟨name, hname, rfl⟩
  · rfl
  · exact component_of_simple hname

theorem filterMap_component_text (h : ∀ c ∈ cs, c.Plain) :
    (cs.map Component.text).filterMap component = cs := by
  induction cs with
  | nil => rfl
  | cons c cs ih =>
    rw [List.map_cons, List.filterMap_cons, component_text (h c (List.mem_cons_self ..)),
      ih fun d hd => h d (List.mem_cons_of_mem _ hd)]

/-- What is read of a part between two slashes is plain. -/
theorem plain_of_component {part : List Char} (hslash : '/' ∉ part)
    (h : component part = some c) : c.Plain := by
  simp only [component] at h
  split_ifs at h with hempty hparent
  · cases h
    trivial
  · cases h
    rw [not_or] at hempty
    exact ⟨hempty.1, hempty.2, hparent, hslash⟩

theorem plain_of_mem_filterMap {s : List Char}
    (h : c ∈ (Text.splitOn '/' s).filterMap component) : c.Plain := by
  obtain ⟨part, hpart, hc⟩ := List.mem_filterMap.1 h
  exact plain_of_component (not_mem_splitOn '/' s part hpart) hc

/-- A text without an empty part begins and ends with a character of a part. -/
theorem ends_of_parts {s : List Char} (h : [] ∉ Text.splitOn '/' s) :
    s ≠ [] ∧ isAbsolute s = false ∧ s.getLast? ≠ some '/' := by
  refine ⟨?_, ?_, ?_⟩
  · rintro rfl
    exact h (List.mem_singleton_self _)
  · cases s with
    | nil => rfl
    | cons c s =>
      simp only [isAbsolute, List.head?_cons, Option.some.injEq, decide_eq_false_iff_not]
      rintro rfl
      exact h (by simp [Text.splitOn_cons])
  · intro hlast
    obtain ⟨init, rfl⟩ := List.getLast?_eq_some_iff.1 hlast
    rw [splitOn_append_sep] at h
    exact h (List.mem_append_right _ (List.mem_singleton_self _))

/-- The parts of a path that was put together of plain components. -/
theorem splitOn_ofComponents (h : ∀ c ∈ cs, c.Plain) (hne : cs ≠ []) :
    Text.splitOn '/' (ofComponents cs) = cs.map Component.text := by
  induction cs using List.reverseRecOn with
  | nil => exact absurd rfl hne
  | append_singleton cs c ih =>
    have hc : c.Plain := h c (by simp)
    have hcs : ∀ d ∈ cs, d.Plain := fun d hd => h d (by simp [hd])
    rw [ofComponents_append, List.map_append, List.map_singleton]
    rcases eq_or_ne cs [] with rfl | hcs'
    · have hjoin : join (ofComponents []) c.text = c.text := by simp [ofComponents, join]
      rw [hjoin, splitOn_of_not_mem (slash_not_mem_text hc)]
      rfl
    · have hparts := ih hcs hcs'
      have hempty : [] ∉ Text.splitOn '/' (ofComponents cs) := by
        rw [hparts]
        intro hmem
        obtain ⟨d, hd, htext⟩ := List.mem_map.1 hmem
        exact text_ne_nil (hcs d hd) htext
      obtain ⟨hne', -, hlast⟩ := ends_of_parts hempty
      have hjoin : join (ofComponents cs) c.text = ofComponents cs ++ '/' :: c.text := by
        simp only [join, isAbsolute_text hc, hne', hlast, Bool.false_eq_true, or_self, if_false]
      rw [hjoin, splitOn_append_sep, hparts, splitOn_of_not_mem (slash_not_mem_text hc)]

/-- Plain components put together have no empty part. -/
theorem ends_ofComponents (h : ∀ c ∈ cs, c.Plain) (hne : cs ≠ []) :
    ofComponents cs ≠ [] ∧ isAbsolute (ofComponents cs) = false ∧
      (ofComponents cs).getLast? ≠ some '/' := by
  refine ends_of_parts ?_
  rw [splitOn_ofComponents h hne]
  intro hmem
  obtain ⟨c, hc, htext⟩ := List.mem_map.1 hmem
  exact text_ne_nil (h c hc) htext

theorem components_ofComponents (h : ∀ c ∈ cs, c.Plain) : components (ofComponents cs) = cs := by
  rcases eq_or_ne cs [] with rfl | hne
  · rfl
  · have hparts := splitOn_ofComponents h hne
    have hhead : (cs.map Component.text).head? ≠ some ['.'] := by
      intro hhead
      obtain ⟨c, hc, htext⟩ := List.mem_map.1 (List.mem_of_head? hhead)
      exact text_ne_dot (h c hc) htext
    simp only [components, (ends_ofComponents h hne).2.1, hparts, if_neg hhead, Bool.false_eq_true,
      if_false, List.nil_append]
    exact filterMap_component_text h

/-- A root before plain components is one slash more. -/
theorem ofComponents_rootDir (h : ∀ c ∈ cs, c.Plain) :
    ofComponents (.rootDir :: cs) = '/' :: ofComponents cs := by
  induction cs using List.reverseRecOn with
  | nil => rfl
  | append_singleton cs c ih =>
    have hc : c.Plain := h c (by simp)
    rw [← List.cons_append, ofComponents_append, ofComponents_append,
      ih fun d hd => h d (by simp [hd])]
    rcases eq_or_ne (ofComponents cs) [] with hempty | hne
    · simp [join, isAbsolute_text hc, hempty]
    · simp [join, isAbsolute_text hc, hne, List.getLast?_cons, List.getLast?_eq_some_getLast hne]
      split_ifs <;> rfl

/-- Joining is appending the components. -/
theorem join_ofComponents {ds : List Component} (cs : List Component) (h : ∀ d ∈ ds, d.Plain)
    (hne : ds ≠ []) : join (ofComponents cs) (ofComponents ds) = ofComponents (cs ++ ds) := by
  induction ds using List.reverseRecOn with
  | nil => exact absurd rfl hne
  | append_singleton ds d ih =>
    have hd : d.Plain := h d (by simp)
    rw [← List.append_assoc, ofComponents_append, ofComponents_append]
    rcases eq_or_ne ds [] with rfl | hds
    · simp [ofComponents, join]
    · have hplain : ∀ e ∈ ds, e.Plain := fun e he => h e (by simp [he])
      rw [← ih hplain hds, join_assoc _ (ends_ofComponents hplain hds).1 (isAbsolute_text hd)]

theorem components_ofComponents_rootDir (h : ∀ c ∈ cs, c.Plain) :
    components (ofComponents (.rootDir :: cs)) = .rootDir :: cs := by
  have hparts : (Text.splitOn '/' (ofComponents cs)).filterMap component = cs := by
    rcases eq_or_ne cs [] with rfl | hne
    · rfl
    · rw [splitOn_ofComponents h hne]
      exact filterMap_component_text h
  rw [ofComponents_rootDir h]
  simp [components, isAbsolute, Text.splitOn_cons, component, hparts]

end Plain

end Paths
