import EraseMe.Library.CleanPath
import EraseMe.Scheduler

/-!
# `lexically_clean`: the paths of the generated files

`lexically_clean` is the move along a path in normal form: a name goes down, a `..` goes up.

* `exists_cleanPath`: what is cleaned is a clean path that leads where the path leads;
* `lexicallyClean_eq_iff`: two paths have one cleaned form exactly when they lead to the same
  place from everywhere;
* `isSafeRelativeFilename_iff`: the names that `write_files` accepts are those that lead below
  every directory;
* `safe_names_below_root`.
-/

namespace EraseMe.Scheduler

open Paths

/-! ### The cleaner on clean paths -/

theorem cleanStep_parentDir (c : CleanPath) :
    cleanStep c.components .parentDir = c.up.components := by
  rcases eq_or_ne c.names [] with hnames | hnames
  · cases hrooted : c.rooted with
    | false =>
      have hup : c.up.components = c.components ++ [.parentDir] := by
        simp [CleanPath.components, CleanPath.tail, CleanPath.up, hnames, hrooted,
          List.replicate_succ']
      have hlast : c.components.getLast? = if c.ups = 0 then none else some .parentDir := by
        simp [CleanPath.components, CleanPath.tail, hnames, hrooted, List.getLast?_replicate]
      rw [hup, cleanStep, hlast]
      split_ifs <;> rfl
    | true =>
      have hups := c.ups_of_rooted hrooted
      simp [CleanPath.components, CleanPath.tail, CleanPath.up, cleanStep, hnames, hrooted, hups]
  · rw [CleanPath.components_up hnames, cleanStep, List.getLast?_concat]
    exact List.dropLast_concat

theorem cleanStep_normal (c : CleanPath) {name : List Char} (h : Simple name) :
    cleanStep c.components (.normal name) =
      (c.down [name] (by simpa using h)).components := by
  rw [CleanPath.components_down]
  rfl

/-- Cleaning relative components moves along them. -/
theorem foldl_cleanStep {cs : List Component} (h : ∀ x ∈ cs, x = .curDir ∨ x.Plain)
    (c : CleanPath) : ∃ d : CleanPath, cs.foldl cleanStep c.components = d.components ∧
      d.rooted = c.rooted ∧ ∀ dir, d.leadsTo dir = cs.foldl walk (c.leadsTo dir) := by
  induction cs generalizing c with
  | nil => exact ⟨c, rfl, rfl, fun dir => rfl⟩
  | cons x cs ih =>
    have hcs : ∀ y ∈ cs, y = .curDir ∨ y.Plain := fun y hy => h y (List.mem_cons_of_mem _ hy)
    rcases h x (List.mem_cons_self ..) with rfl | hx
    · exact ih hcs c
    · rcases hx.simple_or with rfl | ⟨name, hname, rfl⟩
      · obtain ⟨d, hd, hrooted, hleads⟩ := ih hcs c.up
        refine ⟨d, ?_, hrooted.trans c.rooted_up, fun dir => ?_⟩
        · rw [List.foldl_cons, cleanStep_parentDir, hd]
        · rw [hleads, CleanPath.leadsTo_up]
          rfl
      · obtain ⟨d, hd, hrooted, hleads⟩ := ih hcs (c.down [name] (by simpa using hname))
        refine ⟨d, ?_, hrooted, fun dir => ?_⟩
        · rw [List.foldl_cons, cleanStep_normal c hname, hd]
        · rw [hleads, CleanPath.leadsTo_down]
          rfl

/-- A cleaned path is a clean path that leads where the path leads. -/
theorem exists_cleanPath (p : Path) : ∃ c : CleanPath,
    (components p).foldl cleanStep [] = c.components ∧ c.rooted = isAbsolute p ∧
      ∀ dir, c.leadsTo dir = resolve dir p := by
  have hparts : ∀ x ∈ (Text.splitOn '/' p).filterMap component, x = .curDir ∨ x.Plain :=
    fun x hx => Or.inr (plain_of_mem_filterMap hx)
  cases habs : isAbsolute p with
  | true =>
    obtain ⟨c, hc, hrooted, hleads⟩ := foldl_cleanStep hparts CleanPath.root
    refine ⟨c, ?_, hrooted, fun dir => ?_⟩
    · rw [components, if_pos habs]
      exact hc
    · rw [hleads, resolve, components, if_pos habs]
      rfl
  | false =>
    have hall : ∀ x ∈ components p, x = .curDir ∨ x.Plain := by
      intro x hx
      simp only [components, habs, Bool.false_eq_true, if_false] at hx
      rcases List.mem_append.1 hx with hx | hx
      · split_ifs at hx
        · exact Or.inl (List.mem_singleton.1 hx)
        · cases hx
      · exact hparts x hx
    obtain ⟨c, hc, hrooted, hleads⟩ := foldl_cleanStep hall CleanPath.here
    refine ⟨c, hc, hrooted, fun dir => ?_⟩
    rw [hleads, resolve]
    simp [CleanPath.here, CleanPath.leadsTo]

theorem exists_lexicallyClean (p : Path) : ∃ c : CleanPath, lexicallyClean p = c.text ∧
    c.rooted = isAbsolute p ∧ ∀ dir, c.leadsTo dir = resolve dir p := by
  obtain ⟨c, hc, hrooted, hleads⟩ := exists_cleanPath p
  refine ⟨c, ?_, hrooted, hleads⟩
  simp only [lexicallyClean, hc, c.ofComponents_eq_nil_iff]
  rfl

/-- Cleaning does not change where a path leads. -/
@[simp] theorem resolve_lexicallyClean (p : Path) (dir : List (List Char)) :
    resolve dir (lexicallyClean p) = resolve dir p := by
  obtain ⟨c, hc, -, hleads⟩ := exists_lexicallyClean p
  rw [hc, CleanPath.resolve_text, hleads]

/-- The cleaned form of a path stands for where the path leads. -/
theorem lexicallyClean_eq_iff (p q : Path) :
    lexicallyClean p = lexicallyClean q ↔ ∀ dir, resolve dir p = resolve dir q := by
  constructor
  · intro h dir
    rw [← resolve_lexicallyClean p, h, resolve_lexicallyClean]
  · intro h
    obtain ⟨c, hc, -, hp⟩ := exists_lexicallyClean p
    obtain ⟨d, hd, -, hq⟩ := exists_lexicallyClean q
    have heq : c = d := CleanPath.eq_of_leadsTo fun dir => by rw [hp, hq, h]
    rw [hc, hd, heq]

/-- A name below an absolute path is kept. -/
theorem lexicallyClean_append {dir name : Path} (habs : isAbsolute dir = true)
    (hname : Simple name) :
    lexicallyClean (dir ++ '/' :: name) = join (lexicallyClean dir) name := by
  obtain ⟨c, hc, hrooted, hdir⟩ := exists_lexicallyClean dir
  obtain ⟨d, hd, -, hpath⟩ := exists_lexicallyClean (dir ++ '/' :: name)
  have hnames : ∀ n ∈ [name], Simple n := by simpa using hname
  have heq : d = c.down [name] hnames := by
    refine CleanPath.eq_of_leadsTo fun start => ?_
    rw [hpath, CleanPath.leadsTo_down, hdir, resolve, components_append habs hname,
      List.foldl_append]
    rfl
  have htext : (CleanPath.here.down [name] hnames).text = name := by
    simp [CleanPath.text, CleanPath.components, CleanPath.tail, CleanPath.down, CleanPath.here,
      ofComponents, join, Component.text]
  have hjoin := CleanPath.join_text (d := CleanPath.here.down [name] hnames)
    (hrooted.trans habs) rfl rfl (List.cons_ne_nil name [])
  rw [htext] at hjoin
  rw [hc, hd, heq, hjoin]
  rfl

/-! ### The names that are accepted -/

/-- An accepted name is not empty, does not begin with the root, and its cleaned form is neither
`.` nor begins with `..`, by components. -/
theorem isSafeRelativeFilename_components (name : Path) :
    isSafeRelativeFilename name = true ↔
      name ≠ [] ∧ isAbsolute name = false ∧
        components (lexicallyClean name) ≠ components ['.'] ∧
        components (lexicallyClean name) ≠ components ['.', '.'] ∧
        startsWith (lexicallyClean name) ['.', '.'] = false := by
  obtain ⟨c, hc, -, -⟩ := exists_lexicallyClean name
  have htext : ∀ d : CleanPath, c.text ≠ d.text ↔ components c.text ≠ components d.text :=
    fun d => not_congr ⟨congrArg components, CleanPath.text_eq_of_components⟩
  have hdot : c.text ≠ ['.'] ↔ components c.text ≠ components ['.'] := htext CleanPath.here
  have hdots : c.text ≠ ['.', '.'] ↔ components c.text ≠ components ['.', '.'] :=
    htext CleanPath.here.up
  have hhead : startsWith c.text ['.', '.'] = false ↔
      (components c.text).head? ≠ some .parentDir := by
    have hparent : components ['.', '.'] = [.parentDir] := rfl
    rw [startsWith, hparent]
    cases components c.text with
    | nil => simp
    | cons x xs => cases x <;> simp [List.isPrefixOf]
  rw [hc, ← hdot, ← hdots, hhead, isSafeRelativeFilename, hc]
  split_ifs with hempty habs
  · simp [hempty]
  · simp [habs]
  · simp [hempty, habs]

theorem isSafeRelativeFilename_clean {name : Path} {c : CleanPath}
    (hc : lexicallyClean name = c.text) (hrooted : c.rooted = isAbsolute name) :
    isSafeRelativeFilename name = true ↔ c.rooted = false ∧ c.ups = 0 ∧ c.names ≠ [] := by
  rw [isSafeRelativeFilename_components, hc, ← hrooted]
  constructor
  · rintro ⟨-, hroot, hdot, -, hstart⟩
    have hcomponents : c.components = c.tail := by simp [CleanPath.components, hroot]
    have htail : c.tail ≠ [] := by
      rintro htail
      rw [CleanPath.components_text, if_pos (hcomponents.trans htail)] at hdot
      exact hdot rfl
    rw [startsWith, CleanPath.components_text, hcomponents, if_neg htail] at hstart
    have hups : c.ups = 0 := by
      by_contra hups
      obtain ⟨n, hn⟩ := Nat.exists_eq_succ_of_ne_zero hups
      rw [CleanPath.tail, hn, List.replicate_succ] at hstart
      cases hstart
    refine ⟨hroot, hups, fun hnames => htail ?_⟩
    rw [CleanPath.tail, hups, hnames]
    rfl
  · rintro ⟨hroot, hups, hnames⟩
    have hcomponents : components c.text = c.names.map .normal := by
      rw [CleanPath.components_text]
      simp [CleanPath.components, CleanPath.tail, hroot, hups, hnames]
    obtain ⟨first, rest, hcons⟩ := List.exists_cons_of_ne_nil hnames
    rw [startsWith, hcomponents, hcons]
    refine ⟨?_, hroot, ?_, ?_, rfl⟩
    · rintro rfl
      have hdot : c.text = ['.'] := hc.symm
      rw [hdot, hcons] at hcomponents
      cases hcomponents
    · rintro ⟨⟩
    · rintro ⟨⟩

/-- What a path below another one is: all components of the other and more, none of them `.` or
`..`. -/
structure Below (root path : Path) : Prop where
  startsWith : startsWith path root = true
  proper : components path ≠ components root
  noDots : ∀ c ∈ components path, c ≠ .curDir ∧ c ≠ .parentDir
  noDotParts : ∀ part ∈ Text.splitOn '/' path, part ≠ ['.'] ∧ part ≠ ['.', '.']

/-- A path of names below an absolute one. -/
theorem below_down (c : CleanPath) (hc : c.rooted = true) {names : List (List Char)}
    (h : ∀ name ∈ names, Simple name) (hne : names ≠ []) :
    Below c.text (c.down names h).text := by
  have hbelow := CleanPath.components_text_of_rooted (c := c.down names h) hc
  have hroot := CleanPath.components_text_of_rooted hc
  have hnames : (c.down names h).names = c.names ++ names := rfl
  refine ⟨?_, ?_, ?_, ?_⟩
  · rw [startsWith, hbelow, hroot, hnames, List.map_append, ← List.cons_append]
    exact List.isPrefixOf_iff_prefix.2 (List.prefix_append _ _)
  · rw [hbelow, hroot, hnames]
    simpa using hne
  · rw [hbelow]
    intro x hx
    rcases List.mem_cons.1 hx with rfl | hx
    · simp
    · obtain ⟨name, -, rfl⟩ := List.mem_map.1 hx
      simp
  · rw [CleanPath.splitOn_text (c := c.down names h) hc (by simp [hnames, hne])]
    intro part hpart
    rcases List.mem_cons.1 hpart with rfl | hpart
    · simp
    · have hsimple := (c.down names h).simple part hpart
      exact ⟨hsimple.2.1, hsimple.2.2.1⟩

theorem below_join {root name : Path} (habs : isAbsolute root = true)
    (hname : isSafeRelativeFilename name = true) :
    Below (lexicallyClean root) (join (lexicallyClean root) (lexicallyClean name)) := by
  obtain ⟨c, hc, hrooted, -⟩ := exists_lexicallyClean root
  obtain ⟨d, hd, hdrooted, -⟩ := exists_lexicallyClean name
  obtain ⟨hroot, hups, hne⟩ := (isSafeRelativeFilename_clean hd hdrooted).1 hname
  rw [hc, hd, CleanPath.join_text (hrooted.trans habs) hroot hups hne]
  exact below_down c (hrooted.trans habs) d.simple hne

/-- The path of a file with an accepted name is below the cleaned output directory, and cleaning
twice is cleaning once. -/
theorem safe_names_below_root :
    (∀ root name : Path, isAbsolute root = true → isSafeRelativeFilename name = true →
      Below (lexicallyClean root) (join (lexicallyClean root) (lexicallyClean name))) ∧
    ∀ path : Path, lexicallyClean (lexicallyClean path) = lexicallyClean path :=
  ⟨fun _ _ habs hname => below_join habs hname,
    fun path => (lexicallyClean_eq_iff _ _).2 (resolve_lexicallyClean path)⟩

theorem safe_names_below_root_dots :
    Below (lexicallyClean (text "/srv//./old/../erase"))
      (join (lexicallyClean (text "/srv//./old/../erase"))
        (lexicallyClean (text "units/../wrappers/./tick.sh"))) ∧
      lexicallyClean (lexicallyClean (text "../a/../../b")) =
        lexicallyClean (text "../a/../../b") :=
  ⟨safe_names_below_root.1 _ _ (by decide) (by decide), safe_names_below_root.2 _⟩

end EraseMe.Scheduler
