import EraseMe.Registry.Sync

/-!
# What extraction writes

`unpack` is the tree that the entries of an archive describe.  At every moment of `extractArchive`
the file system is as before except below the staging directory, and when it ends without an error
the tree there is the one that the entries describe.
-/

namespace EraseMe.Registry.Sync

open Faulty Faulty.Prog FileTree

/-! ### The tree of an archive -/

/-- A tree with one more entry. -/
def place (t : Tree) (entry : Entry) : Tree :=
  match safeArchivePath entry.pathBytes with
  | .error _ => t
  | .ok path =>
      let p := names (Paths.components path)
      match entry.entryType with
      | .directory => makeDirs t p
      | .file => put (makeDirs t p.dropLast) p (.file (entry.data.take entry.size))
      | .other => t

/-- The tree of an archive. -/
def unpack (entries : List Entry) : Tree := entries.foldl place (leaf .directory)

/-! ### Inside the staging directory -/

/-- The file system is `base` except below `root`. -/
def Inside (base : Tree) (root : Path) (s : Tree) : Prop := ∃ t, s = graft base root t

variable {e : Environment} {base t : Tree} {root d : Path} {path rest : List Paths.Component}

theorem inside_graft (base t : Tree) (root : Path) : Inside base root (graft base root t) :=
  ⟨t, rfl⟩

theorem Inside.apply {s : Tree} {l : Path} (h : Inside base root s) (hl : ¬ root <+: l) :
    s l = base l := by
  obtain ⟨t, rfl⟩ := h
  exact graft_of_not_under hl

/-- The file system is `base` with `t` below `root`. -/
abbrev Grafted (base : Tree) (root : Path) (t s : Tree) : Prop := s = graft base root t

section Operations

variable {name : OsString} {entry : Entry} {size : ℕ} {o : Operation}

theorem meets_quiet : Meets (Inside base root) (Grafted base root t) (quiet e o)
    (fun _ => Grafted base root t) fun _ => Inside base root := by
  refine Meets.perform ?_ (fun _ hs => hs) ?_
  · rintro s rfl
    exact inside_graft base t root
  · rintro n fault s - rfl
    exact ⟨inside_graft base t root, inside_graft base t root⟩

/-- A directory opens when it is there; when it is not found, nothing is there. -/
theorem meets_openDirNofollow :
    Meets (Inside base root) (Grafted base root t) (openDirNofollow e (root ++ d) name)
      (fun p s => p = root ++ (d ++ [name]) ∧ t (d ++ [name]) = some .directory ∧
        Grafted base root t s)
      fun error s => (error = .notFound → t (d ++ [name]) = none) ∧ Grafted base root t s := by
  refine Meets.perform ?_ ?_ ?_
  · rintro s rfl
    simp only [List.append_assoc, graft_append]
    cases h : t (d ++ [name]) with
    | none => exact inside_graft base t root
    | some node =>
      cases node with
      | directory => exact inside_graft base t root
      | file _ => exact inside_graft base t root
      | special => exact inside_graft base t root
  · rintro s rfl
    simp only [List.append_assoc, graft_append]
    cases h : t (d ++ [name]) with
    | none => exact ⟨fun _ => rfl, rfl⟩
    | some node =>
      cases node with
      | directory => exact ⟨rfl, rfl, rfl⟩
      | file _ => exact ⟨by rintro ⟨⟩, rfl⟩
      | special => exact ⟨by rintro ⟨⟩, rfl⟩
  · rintro n fault s - rfl
    exact ⟨inside_graft base t root, by rintro ⟨⟩, rfl⟩

theorem meets_createDir :
    Meets (Inside base root) (Grafted base root t) (createDir e (root ++ d) name)
      (fun _ => Grafted base root (put t (d ++ [name]) .directory))
      fun _ => Inside base root := by
  refine Meets.perform ?_ ?_ ?_
  · rintro s rfl
    simp only [List.append_assoc, graft_append, put_graft]
    cases t (d ++ [name]) with
    | none => exact inside_graft _ _ _
    | some _ => exact inside_graft _ _ _
  · rintro s rfl
    simp only [List.append_assoc, graft_append, put_graft]
    cases t (d ++ [name]) with
    | none => rfl
    | some _ => exact inside_graft _ _ _
  · rintro n fault s - rfl
    exact ⟨inside_graft base t root, inside_graft base t root⟩

theorem meets_createNewFile :
    Meets (Inside base root) (Grafted base root t) (createNewFile e (root ++ d) name)
      (fun p s => p = root ++ (d ++ [name]) ∧
        Grafted base root (put t (d ++ [name]) (.file [])) s)
      fun _ => Inside base root := by
  refine Meets.perform ?_ ?_ ?_
  · rintro s rfl
    simp only [List.append_assoc, graft_append, put_graft]
    cases t (d ++ [name]) with
    | none => exact inside_graft _ _ _
    | some _ => exact inside_graft _ _ _
  · rintro s rfl
    simp only [List.append_assoc, graft_append, put_graft]
    cases t (d ++ [name]) with
    | none => exact ⟨rfl, rfl⟩
    | some _ => exact inside_graft _ _ _
  · rintro n fault s - rfl
    exact ⟨inside_graft base t root, inside_graft base t root⟩

/-- Copying writes the bytes of the entry that fit, whether or not it then fails. -/
theorem meets_copy :
    Meets (Inside base root) (Grafted base root t) (copy e entry (root ++ d) size)
      (fun _ => Grafted base root (put t d (.file (entry.data.take size))))
      fun _ => Inside base root := by
  refine Meets.perform ?_ ?_ ?_
  · rintro s rfl
    simp only [put_graft]
    exact inside_graft _ _ _
  · rintro s rfl
    simp only [put_graft]
    cases entry.failure with
    | none => rfl
    | some source =>
      by_cases h : entry.data.length < size
      · simp only [if_pos h]
        exact inside_graft _ _ _
      · simp only [if_neg h]
        rfl
  · rintro n fault s - rfl
    simp only [put_graft]
    exact ⟨inside_graft _ _ _, inside_graft _ _ _⟩

end Operations

/-! ### Directories -/

theorem names_cons (name : List Char) (rest : List Paths.Component) :
    names (.normal name :: rest) = osString (String.ofList name) :: names rest := rfl

theorem names_dropLast (path : List Paths.Component) :
    names path.dropLast = (names path).dropLast := List.map_dropLast

/-- The loop makes the directories that are missing. -/
theorem meets_createRelativeDirs :
    Meets (Inside base root) (Grafted base root t) (createRelativeDirs e path (root ++ d) rest)
      (fun _ => Grafted base root (makeDirsFrom t d (names rest))) fun _ => Inside base root := by
  induction rest generalizing d t with
  | nil => exact Meets.pure fun _ hs => hs
  | cons c rest ih =>
    cases c with
    | rootDir => exact Meets.fail fun _ hs => ⟨t, hs⟩
    | curDir => exact Meets.fail fun _ hs => ⟨t, hs⟩
    | parentDir => exact Meets.fail fun _ hs => ⟨t, hs⟩
    | normal name =>
      rw [names_cons, makeDirsFrom]
      refine Meets.bind (Meets.attempt meets_openDirNofollow) fun r => ?_
      cases r with
      | ok next =>
        -- the directory is there already
        refine Meets.of_and ?_
        rintro rfl
        refine Meets.of_and fun hdir => ?_
        rw [makeDir, if_neg (by rw [hdir]; simp)]
        exact ih
      | error error =>
        cases error with
        -- the only refusal that goes on: nothing is there, so the directory is made
        | notFound =>
          refine Meets.of_and fun hnone => ?_
          rw [makeDir, if_pos (hnone rfl)]
          refine Meets.bind (Meets.mapError meets_createDir fun _ _ => id) fun _ => ?_
          refine Meets.bind (Meets.mapError meets_openDirNofollow ?_) fun next => ?_
          · exact fun _ _ hs => ⟨_, hs.2⟩
          · refine Meets.of_and ?_
            rintro rfl
            exact Meets.of_and fun _ => ih
        | alreadyExists => exact Meets.fail fun _ hs => ⟨t, hs.2⟩
        | notADirectory => exact Meets.fail fun _ hs => ⟨t, hs.2⟩
        | other message => exact Meets.fail fun _ hs => ⟨t, hs.2⟩

theorem meets_createRelativeDirAll :
    Meets (Inside base root) (Grafted base root t) (createRelativeDirAll e root path)
      (fun _ => Grafted base root (makeDirs t (names path))) fun _ => Inside base root := by
  refine Meets.bind (Meets.mapError meets_quiet fun _ _ => id) fun _ => ?_
  have h : Meets (Inside base root) (Grafted base root t)
      (createRelativeDirs e path (root ++ []) path)
      (fun _ => Grafted base root (makeDirsFrom t [] (names path))) fun _ => Inside base root :=
    meets_createRelativeDirs
  rwa [List.append_nil] at h

theorem meets_openDirs :
    Meets (Inside base root) (Grafted base root t) (openDirs e path (root ++ d) rest)
      (fun p s => p = root ++ (d ++ names rest) ∧ Grafted base root t s)
      fun _ => Inside base root := by
  induction rest generalizing d with
  | nil => exact Meets.pure fun _ hs => ⟨by simp [names], hs⟩
  | cons c rest ih =>
    cases c with
    | rootDir => exact Meets.fail fun _ hs => ⟨t, hs⟩
    | curDir => exact Meets.fail fun _ hs => ⟨t, hs⟩
    | parentDir => exact Meets.fail fun _ hs => ⟨t, hs⟩
    | normal name =>
      refine Meets.bind (Meets.mapError meets_openDirNofollow fun _ _ hs => ⟨t, hs.2⟩)
        fun next => ?_
      refine Meets.of_and ?_
      rintro rfl
      refine Meets.of_and fun _ => ?_
      have h := ih (d := d ++ [osString (String.ofList name)])
      rwa [List.append_assoc d] at h

/-! ### Files -/

theorem names_append (path rest : List Paths.Component) :
    names (path ++ rest) = names path ++ names rest := List.map_append

theorem meets_copyExact {entry : Entry} :
    Meets (Inside base root) (Grafted base root t) (copyExact e entry (root ++ d) path)
      (fun _ => Grafted base root (put t d (.file (entry.data.take entry.size))))
      fun _ => Inside base root := by
  refine Meets.bind (Meets.mapError meets_copy fun _ _ => id) fun copied => ?_
  by_cases h : copied ≠ entry.size
  · rw [if_pos h]
    exact Meets.fail fun _ hs => ⟨_, hs⟩
  · rw [if_neg h]
    exact Meets.pure fun _ => id

/-- The parent is opened at its place, below directories that are there by now. -/
theorem meets_openParentDir :
    Meets (Inside base root) (Grafted base root t) (openParentDir e root path)
      (fun r s => r.1 = root ++ (names path).dropLast ∧
        names path = (names path).dropLast ++ [r.2] ∧
        Grafted base root (makeDirs t (names path).dropLast) s)
      fun _ => Inside base root := by
  unfold openParentDir
  cases hlast : path.getLast? with
  | none => exact Meets.fail fun _ hs => ⟨t, hs⟩
  | some c =>
    cases c with
    | rootDir => exact Meets.fail fun _ hs => ⟨t, hs⟩
    | curDir => exact Meets.fail fun _ hs => ⟨t, hs⟩
    | parentDir => exact Meets.fail fun _ hs => ⟨t, hs⟩
    | normal name =>
      have hnames : names path = (names path).dropLast ++ [osString (String.ofList name)] := by
        conv_lhs => rw [← List.dropLast_append_getLast? _ hlast]
        rw [names_append, names_dropLast]
        rfl
      refine Meets.bind meets_createRelativeDirAll fun _ => ?_
      refine Meets.bind (Meets.mapError meets_quiet fun _ _ => id) fun _ => ?_
      have hopen : Meets (Inside base root)
          (Grafted base root (makeDirs t (names path.dropLast)))
          (openDirs e path (root ++ []) path.dropLast)
          (fun p s => p = root ++ ([] ++ names path.dropLast) ∧
            Grafted base root (makeDirs t (names path.dropLast)) s)
          fun _ => Inside base root := meets_openDirs
      rw [List.append_nil] at hopen
      refine Meets.bind hopen fun parent => Meets.pure ?_
      rw [names_dropLast]
      exact fun s hs => ⟨hs.1, hnames, hs.2⟩

/-- A file and the directories on the way to it. -/
theorem meets_extractFile {entry : Entry} :
    Meets (Inside base root) (Grafted base root t) (extractFile e root path entry)
      (fun _ => Grafted base root
        (put (makeDirs t (names path).dropLast) (names path)
          (.file (entry.data.take entry.size))))
      fun _ => Inside base root := by
  refine Meets.bind meets_openParentDir fun r => ?_
  obtain ⟨parent, name⟩ := r
  refine Meets.of_and ?_
  rintro rfl
  refine Meets.of_and fun hnames => ?_
  refine Meets.bind (Meets.mapError meets_createNewFile fun _ _ => id) fun file => ?_
  refine Meets.of_and ?_
  rintro rfl
  rw [← hnames]
  refine Meets.bind meets_copyExact fun _ => ?_
  rw [put_put]
  refine Meets.bind (Meets.mapError meets_quiet fun _ _ => id) fun _ => ?_
  exact Meets.mapError meets_quiet fun _ _ => id

/-! ### The archive -/

section Archive

variable {items : List (Except IoError Entry)} {entries files expanded : ℕ}

theorem place_directory {entry : Entry} {path : Paths.Path}
    (hpath : safeArchivePath entry.pathBytes = .ok path) (htype : entry.entryType = .directory) :
    place t entry = makeDirs t (names (Paths.components path)) := by
  simp only [place, hpath, htype]

theorem place_file {entry : Entry} {path : Paths.Path}
    (hpath : safeArchivePath entry.pathBytes = .ok path) (htype : entry.entryType = .file) :
    place t entry = put (makeDirs t (names (Paths.components path)).dropLast)
      (names (Paths.components path)) (.file (entry.data.take entry.size)) := by
  simp only [place, hpath, htype]

/-- All entries could be read, and the tree is the one that they describe. -/
def Placed (base : Tree) (root : Path) (t : Tree) (items : List (Except IoError Entry))
    (s : Tree) : Prop :=
  ∃ es : List Entry, items = es.map .ok ∧ Grafted base root (es.foldl place t) s

/-- Entry by entry, the tree in the staging directory grows as `place` says. -/
theorem meets_extractEntries :
    Meets (Inside base root) (Grafted base root t)
      (extractEntries e root items entries files expanded)
      (fun _ => Placed base root t items) fun _ => Inside base root := by
  induction items generalizing t entries files expanded with
  | nil => exact Meets.pure fun _ hs => ⟨[], rfl, hs⟩
  | cons item items ih =>
    have hinside (s : Tree) (hs : Grafted base root t s) : Inside base root s := ⟨t, hs⟩
    refine Meets.ite_fail hinside fun _ => ?_
    refine Meets.bind_ofExcept (fun _ _ => hinside) fun entry hitem => ?_
    refine Meets.bind_ofExcept (fun _ _ => hinside) fun path hpath => ?_
    have hitem : item = .ok entry := by
      cases item with
      | ok _ =>
        cases hitem
        rfl
      | error _ => cases hitem
    -- the rest of the archive, after this entry
    have hrest {entries files expanded : ℕ} :
        Meets (Inside base root) (Grafted base root (place t entry))
          (extractEntries e root items entries files expanded)
          (fun _ => Placed base root t (item :: items)) fun _ => Inside base root := by
      refine ih.post (fun _ s hs => ?_) fun _ _ => id
      obtain ⟨es, hes, hs⟩ := hs
      exact ⟨entry :: es, by rw [hitem, hes, List.map_cons], hs⟩
    cases htype : entry.entryType with
    | directory =>
      rw [place_directory hpath htype] at hrest
      exact Meets.ite_fail hinside fun _ => meets_createRelativeDirAll.bind fun _ => hrest
    | file =>
      rw [place_file hpath htype] at hrest
      refine Meets.ite_fail hinside fun _ => Meets.ite_fail hinside fun _ => ?_
      refine Meets.ite_fail hinside fun _ => Meets.ite_fail hinside fun _ => ?_
      exact meets_extractFile.bind fun _ => hrest
    | other => exact Meets.fail hinside

/-- At every moment of an extraction the file system is as before except in the staging directory;
without an error that directory holds the tree of the archive. -/
theorem meets_extractArchive {archive : Archive} :
    Meets (Inside base root) (Grafted base root t) (extractArchive e root archive)
      (fun _ s => ∃ es : List Entry, archive.entries = .ok (es.map .ok) ∧
        Grafted base root (es.foldl place t) s)
      fun _ => Inside base root := by
  refine Meets.bind_ofExcept (fun _ _ s hs => ⟨t, hs⟩) fun items hitems => ?_
  refine Meets.bind meets_extractEntries fun _ => Meets.ofExcept fun s hs => ?_
  obtain ⟨es, hes, hs⟩ := hs
  cases checkTrailer archive with
  | error _ => exact ⟨_, hs⟩
  | ok _ =>
    refine ⟨es, ?_, hs⟩
    cases h : archive.entries with
    | error _ =>
      rw [h] at hitems
      cases hitems
    | ok items' =>
      rw [h] at hitems
      cases hitems
      rw [hes]

end Archive

end EraseMe.Registry.Sync
