import EraseMe.Migration.Backup

/-!
# Migrations that are resumed

A run may stop at any moment, and the next one goes on from what it left (`Reachable`).  Up to the
marker of the backup only the backup is written; from then on the backup is whole, nothing that was
there has changed but the destinations, and the state names as done what is delivered only
(`migration_resumes`).
-/

namespace EraseMe.Migration

open Faulty Faulty.Prog FileTree
open Json (Octets)

/-- What all runs of a migration have in common, with the files before the first. -/
structure Installation where
  environment : Environment
  options : Options
  source : Path
  destination : Path
  config : Path
  configDestination : Path
  start : Files
  /-- What the runs may report. -/
  artifacts : List Artifact

namespace Installation

variable (M : Installation)

/-- The backup of all runs. -/
def backup : Path := backupOf M.options M.destination {}

def marker : Path := markerOf M.backup

def state : Path := statePath M.destination

/-- A directory that a backup must be apart from and artifacts go to. -/
def Root (root : Path) : Prop :=
  root = M.destination ∨ root = M.configDestination ∨ M.options.schedulerDest = some root ∨
    ∃ platform, platformOf M.environment M.options = .ok platform ∧
      nativeRoot M.environment M.options.homeDir platform = some root

/-- What is brought to the destination of an artifact. -/
def Contents (a : Artifact) (data : Octets) : Prop :=
  if a.kind = "scheduler" then
    ∃ files content, generated M.environment M.options M.destination = .ok files ∧
      files.lookup (a.destination.getLast?.getD []) = some content ∧
        data = filledIn M.options M.destination (Utf8.encode (String.ofList content))
  else ∃ source, a.source = some source ∧ M.start source = some (.file data)

/-- The artifact is at its place. -/
def Delivered (a : Artifact) (s : Files) : Prop :=
  ∃ data, M.Contents a data ∧ s a.destination = some (.file data)

/-- What is done is delivered; secrets are in no file. -/
def Done (st : State) (s : Files) : Prop :=
  ∀ a ∈ M.artifacts, a.kind ≠ "secret-store" → itemStatus st a.id = some "done" → M.Delivered a s

/-- The state of this migration, and it is right about the files. -/
structure Current (st : State) (s : Files) : Prop where
  version : st.version = 1
  sourceRoot : st.sourceRoot = display M.source
  destinationRoot : st.destinationRoot = display M.destination
  backupDir : st.backupDir = display M.backup
  done : M.Done st s

/-- What artifacts are written to. -/
def Target (l : Path) : Prop :=
  l = M.state ∨ ∃ a ∈ M.artifacts, a.kind ≠ "secret-store" ∧ a.destination = l

/-- The name of a temporary file that a run may have left. -/
def Temporary (l : Path) : Prop := ∃ parent random, l = parent ++ [name ".migration-write-" ++ random]

/-- Whatever was outside of the backup is there, but for what artifacts are written to. -/
def Frame (s : Files) : Prop :=
  ∀ l, s l = M.start l ∨ M.Target l ∨ M.backup <+: l ∨
    M.start l = none ∧ (s l = some .directory ∨ Temporary l)

/-- Nothing is changed but the backup, which has no marker yet. -/
structure Untouched (s : Files) : Prop where
  unmarked : s M.marker = none
  within : Within M.backup M.start s

/-- The tree at a path is in the backup. -/
def Saved (path : Path) (directory : Name) (s : Files) : Prop :=
  ∀ l node, M.start (path ++ l) = some node → s (M.backup ++ [directory] ++ l) = some node

/-- The backup has its marker, and all of both trees. -/
structure BackedUp (s : Files) : Prop where
  marked : ∃ data, s M.marker = some (.file data)
  source : M.Saved M.source (name "source") s
  config : M.config ≠ M.source → M.Saved M.config (name "config-0") s

/-- The backup is whole and the artifacts are on their way. -/
structure Moving (s : Files) : Prop where
  frame : M.Frame s
  backedUp : M.BackedUp s
  recorded : ∀ node, s M.state = some node →
    ∃ st, node = .file (jsonBytes st.value) ∧ M.Current st s

/-- What holds at every moment of every run. -/
def Sound (s : Files) : Prop := M.Untouched s ∨ M.Moving s

/-- One run: its faults, what it is asked for and what it has detected. -/
structure Run where
  faults : ℕ → Operation → Option Failing
  random : Name
  copySecrets : Bool
  secretStore : Option (Except String Unit)
  beforeItem : Option (Artifact → Except String Unit)
  report : Report
  known : ∀ item ∈ report.items.getD [], item.artifact ∈ M.artifacts
  /-- What cannot be looked at counts as missing, so that it would not get into the backup. -/
  looks : M.config ≠ M.source → ∀ n, faults n (.metadata M.config) = none

variable {M}

/-- The environment of the run. -/
def Run.environment (r : M.Run) : Environment :=
  { M.environment with faults := r.faults, random := r.random }

/-- The options of the run. -/
def Run.options (r : M.Run) : Options :=
  { M.options with
    copySecrets := r.copySecrets
    secretStore := r.secretStore
    beforeItem := r.beforeItem }

/-- The run as a program. -/
def Run.program (r : M.Run) : Prog Progress String Unit :=
  mutate r.environment r.options M.source M.destination M.config M.configDestination

/-- The run, from the files that it finds. -/
def Run.from (r : M.Run) (s : Files) : Except String Unit × World Progress :=
  r.program ⟨⟨s, r.report⟩, 0, []⟩

/-- What it has detected. -/
def Run.artifacts (r : M.Run) : List Artifact := (r.report.items.getD []).map ItemResult.artifact

variable (M)

/-- The files after runs that may have stopped anywhere. -/
inductive Reachable : Files → Prop
  | start : Reachable M.start
  | run {s : Files} (r : M.Run) (h : Reachable s) {moment : Progress}
      (hmoment : moment ∈ (r.from s).2.moments) : Reachable moment.files

/-- Two artifacts that get the same. -/
def Alike (a b : Artifact) : Prop :=
  a.kind = b.kind ∧ a.destination = b.destination ∧ (a.kind ≠ "scheduler" → a.source = b.source)

/-- How things are before the first run. -/
structure Prepared : Prop where
  /-- No migration has been here. -/
  noState : M.start M.state = none
  noBackup : ∀ l, M.start (M.backup ++ l) = none
  simple : ∀ part ∈ M.backup, Paths.Simple part
  /-- The sources are trees, and all of them can be listed. -/
  grounded : Grounded M.start M.source ∧ Grounded M.start M.config
  lists : Lists M.environment M.start M.source ∧ Lists M.environment M.start M.config
  /-- What is detected is there, and no destination. -/
  found : ∀ a ∈ M.artifacts, a.kind ≠ "scheduler" → a.kind ≠ "secret-store" →
    ∀ source, a.source = some source → M.start source ≠ none ∧ ¬ M.Target source
  /-- An identifier or a destination tells what is delivered. -/
  alike : ∀ a ∈ M.artifacts, ∀ b ∈ M.artifacts, a.kind ≠ "secret-store" →
    b.kind ≠ "secret-store" → a.id = b.id ∨ a.destination = b.destination → Alike a b
  secrets : ∀ a ∈ M.artifacts, ∀ b ∈ M.artifacts, a.id = b.id →
    (a.kind = "secret-store" ↔ b.kind = "secret-store")
  rooted : ∀ a ∈ M.artifacts, a.kind ≠ "secret-store" → ∃ root, M.Root root ∧ root <+: a.destination
  besideState : ∀ a ∈ M.artifacts, a.kind ≠ "secret-store" → ¬ M.state <+: a.destination

/-! ### Places -/

section Places

variable {M} {s u : Files} {N : Path → Node → Prop} {path l : Path} {a b : Artifact} {data : Octets}

theorem overlap_eq_false {p q : Path} : overlap p q = false ↔ Apart p q := by
  simp [overlap, Apart, ← List.isPrefixOf_iff_prefix]

/-- A backup that passed the check. -/
def Clear (M : Installation) : Prop :=
  ∀ root, root = M.source ∨ root = M.config ∨ M.Root root → Apart root M.backup

theorem Clear.state_not_under (h : M.Clear) : ¬ M.backup <+: M.state :=
  (h M.destination (.inr (.inr (.inl rfl)))).symm.not_under _

theorem Clear.state_not_above (h : M.Clear) : ¬ M.state <+: M.backup :=
  fun habove => (h M.destination (.inr (.inr (.inl rfl)))).1 ((List.prefix_append _ _).trans habove)

theorem Clear.target_not_under (h : M.Clear) (hM : M.Prepared) (hl : M.Target l) :
    ¬ M.backup <+: l := by
  rcases hl with rfl | ⟨a, ha, hkind, rfl⟩
  · exact h.state_not_under
  · obtain ⟨root, hroot, rest, hrest⟩ := hM.rooted a ha hkind
    rw [← hrest]
    exact (h root (.inr (.inr hroot))).symm.not_under rest

/-- The prefix alone keeps a temporary file from the names of the migration. -/
theorem temporary_ne {other : Name} (h : other.take 12 ≠ (name ".migration-write-").take 12)
    (e : Environment) (parent p : Path) : temporary e parent ≠ p ++ [other] := by
  intro heq
  have hlast : name ".migration-write-" ++ e.random = other := by
    simpa [temporary] using congrArg List.getLast? heq
  rw [← hlast, List.take_append_of_le_length (by decide)] at h
  exact h rfl

theorem temporary_ne_state (e : Environment) (parent : Path) : temporary e parent ≠ M.state :=
  temporary_ne (by decide) e parent _

theorem temporary_ne_marker (e : Environment) (parent : Path) : temporary e parent ≠ M.marker :=
  temporary_ne (by decide) e parent _

end Places

/-! ### The making of a backup -/

section Making

variable {M} {s u : Files} {copies : List (Path × Name)} {directory : Name} {path : Path}

/-- Some trees are in the backup, which has no marker yet. -/
def Saving (M : Installation) (copies : List (Path × Name)) (s : Files) : Prop :=
  M.Untouched s ∧ ∀ copy ∈ copies, M.Saved copy.1 copy.2 s

theorem Untouched.saving (h : M.Untouched s) : M.Saving [] s := ⟨h, by simp⟩

/-- What is written in another directory of the backup. -/
theorem Saving.within (h : M.Saving copies s) (hmarker : directory ≠ name ".complete.json")
    (hcopies : ∀ copy ∈ copies, copy.2 ≠ directory)
    (hwithin : Within (M.backup ++ [directory]) s u) : M.Saving copies u := by
  have hother {other : Name} (hne : other ≠ directory) (l : Path) :
      u (M.backup ++ [other] ++ l) = s (M.backup ++ [other] ++ l) :=
    hwithin.apart (apart_append_singleton _ hne) l
  refine ⟨⟨?_, h.1.within.trans (List.prefix_append _ _) hwithin⟩, fun copy hcopy l node hnode => ?_⟩
  · have hsame := hother hmarker.symm []
    rw [List.append_nil] at hsame
    exact hsame.trans h.1.unmarked
  · rw [hother (hcopies copy hcopy)]
    exact h.2 copy hcopy l node hnode

theorem Untouched.source (h : M.Untouched s) (hpath : Apart path M.backup) (l : Path) :
    s (path ++ l) = M.start (path ++ l) := h.within.apart hpath l

/-- Another tree gets into the backup. -/
theorem meets_copyTree (r : M.Run) (hpath : Apart path M.backup)
    (hgrounded : Grounded M.start path) (hlists : Lists M.environment M.start path)
    (hmarker : directory ≠ name ".complete.json") (hcopies : ∀ copy ∈ copies, copy.2 ≠ directory)
    (depth : ℕ) :
    Meets (fun s => M.Untouched s.files) (fun s => M.Saving copies s.files)
      (copyTree r.environment depth path (M.backup ++ [directory]))
      (fun _ s => M.Saving ((path, directory) :: copies) s.files)
      fun _ s => M.Untouched s.files := by
  refine Meets.of_forall fun s hs => ?_
  have hsource := hs.1.source hpath
  have hground : Grounded s.files path := by
    intro p n hn
    rw [List.append_assoc, hsource] at hn
    rw [hsource]
    exact hgrounded p n (by simpa using hn)
  have hlist : Lists r.environment s.files path := by
    intro t ht p n hn
    rw [List.append_assoc, hsource] at hn
    exact hlists t (fun l => (ht l).trans (hsource l)) p n (by simpa using hn)
  have hcopy := copies_copyTree (hpath.append [directory]) hground hlist (by simp) depth []
    fun _ => False
  rw [List.append_nil, List.append_nil] at hcopy
  have hsaving (u : Files) (hu : Within (M.backup ++ [directory]) s.files u) : M.Saving copies u :=
    hs.within hmarker hcopies hu
  refine hcopy.mono (fun u hu => (hsaving _ hu.within).1) (fun u hu => ?_) (fun _ u hu => ?_)
    fun _ u hu => (hsaving _ hu.within).1
  · rw [hu]
    exact ⟨Within.refl _ _, fun l hl => hl.elim⟩
  · refine ⟨(hsaving _ hu.within).1, fun copy hcopy l node hnode => ?_⟩
    rcases List.mem_cons.1 hcopy with rfl | hcopy
    · exact hu.copied l (.inr List.nil_prefix) node ((hsource l).trans hnode)
    · exact (hsaving _ hu.within).2 copy hcopy l node hnode

theorem dropLast_saved (directory file : Name) :
    (M.backup ++ [directory, file]).dropLast = M.backup ++ [directory] := by
  simp [List.dropLast_append_of_ne_nil]

theorem Saving.beside {e : Environment} (h : M.Saving copies s)
    (hmarker : directory ≠ name ".complete.json")
    (hcopies : ∀ copy ∈ copies, copy.2 ≠ directory) {file : Name}
    (hbeside : Beside e (M.backup ++ [directory, file]) s u) : M.Saving copies u := by
  refine h.within hmarker hcopies ((Within.refl _ s).grows hbeside fun l node hl => ?_)
  rw [dropLast_saved] at hl
  rcases hl with ⟨hway, hnode⟩ | ⟨rfl, -⟩
  · exact .inr ⟨hway, hnode⟩
  · exact .inl (List.prefix_append _ _)

theorem Saving.written (h : M.Saving copies s) (hmarker : directory ≠ name ".complete.json")
    (hcopies : ∀ copy ∈ copies, copy.2 ≠ directory) (file : Name) (data : Octets) :
    M.Saving copies (written s (M.backup ++ [directory, file]) data) := by
  refine h.within hmarker hcopies (Within.put ?_ ?_ _)
  · rw [dropLast_saved]
    exact (Within.refl _ s).grows (grows_makeDirs _ _) fun _ _ hl => .inr hl
  · exact ⟨[file], by simp⟩

/-- A file outside of both trees. -/
theorem meets_copyOne_external {e : Environment} {file : Name}
    (hcopies : ∀ copy ∈ copies, copy.2 ≠ name "external") :
    Meets (fun s => M.Untouched s.files) (fun s => M.Saving copies s.files)
      (copyOne e path (M.backup ++ [name "external", file]))
      (fun _ s => M.Saving copies s.files) fun _ s => M.Untouched s.files := by
  have hquiet {β : Type} {ε : Type} {m : Prog Progress ε β}
      (h : Keeps (fun s => M.Saving copies s.files) m) :
      Meets (fun s => M.Untouched s.files) (fun s => M.Saving copies s.files) m
        (fun _ s => M.Saving copies s.files) fun _ s => M.Untouched s.files :=
    h.mono (fun _ hs => hs.1) (fun _ => id) (fun _ _ => id) fun _ _ hs => hs.1
  refine Meets.bind (Meets.mapError (hquiet (keeps_rejectFrom [] _)) fun _ _ => id) fun _ => ?_
  refine Meets.bind (Meets.mapError (hquiet keeps_asks) fun _ _ => id) fun node => ?_
  rcases node with _ | _ | _
  · refine Meets.bind (Meets.mapError (hquiet keeps_asks) fun _ _ => id) fun data => ?_
    refine Meets.of_forall fun s hs => ?_
    have hbeside (u : Progress)
        (hu : Beside e (M.backup ++ [name "external", file]) s.files u.files) :
        M.Untouched u.files := (hs.beside (by decide) hcopies hu).1
    have hwritten (u : Progress)
        (hu : u.files = Migration.written s.files (M.backup ++ [name "external", file]) data) :
        M.Saving copies u.files := hu ▸ hs.written (by decide) hcopies file data
    exact (meets_writeAtomic s.files _ data hbeside fun u hu => (hwritten u hu).1).mono
      (fun _ => id) (fun u hu => by rw [hu]) (fun _ => hwritten) fun _ => hbeside
  · exact Meets.fail fun _ hs => hs.1
  · exact Meets.fail fun _ hs => hs.1

theorem meets_backupExternal (e : Environment) {source config : Path} (artifacts : List Artifact)
    (hcopies : ∀ copy ∈ copies, copy.2 ≠ name "external") (external : List ExternalBackup) :
    Meets (fun s => M.Untouched s.files) (fun s => M.Saving copies s.files)
      (backupExternal e M.backup source config artifacts external)
      (fun _ s => M.Saving copies s.files) fun _ s => M.Untouched s.files := by
  induction artifacts generalizing external with
  | nil => exact Meets.pure fun _ => id
  | cons a artifacts ih =>
    rw [backupExternal]
    cases a.source with
    | none => exact ih external
    | some path =>
      refine Meets.bind ((meets_isThere fun _ hs => hs.1).post
        (fun _ _ hs => hs.1) fun _ _ => id) fun there => ?_
      dsimp only
      split_ifs
      · exact ih external
      · exact Meets.bind (Meets.mapError (meets_copyOne_external hcopies) fun _ _ => id)
          fun _ => ih _

end Making

/-! ### Up to the marker -/

section Marker

variable {M} {s u : Files} {path : Path} {data : Octets} (hM : M.Prepared) (hclear : M.Clear)

theorem dropLast_marker : M.marker.dropLast = M.backup := by simp [marker, markerOf]

include hM hclear in
/-- Outside of the backup everything is as before the first run. -/
theorem Untouched.noState (h : Within M.backup M.start s) : s M.state = none := by
  rcases h M.state hclear.state_not_under with h | ⟨-, hway, -⟩
  · rw [h, hM.noState]
  · exact absurd hway hclear.state_not_above

theorem Untouched.beside {e : Environment} (h : M.Untouched s) (hbeside : Beside e M.marker s u) :
    M.Untouched u := by
  have hbeside' : Grows (fun l node => (l <+: M.backup ∧ node = .directory) ∨
      l = temporary e M.backup) s u :=
    hbeside.mono fun l node hl => by
      rw [dropLast_marker] at hl
      exact hl.imp_right fun hl => hl.1
  refine ⟨?_, h.within.grows hbeside' fun l node hl => ?_⟩
  · rcases hbeside' M.marker with hsame | ⟨-, node, -, hway, -⟩
    · rw [hsame, h.unmarked]
    · exact absurd hway.length_le (by simp [marker, markerOf])
    · exact absurd ‹M.marker = _›.symm (temporary_ne_marker e M.backup)
  · rcases hl with hl | rfl
    · exact .inr hl
    · exact .inl (List.prefix_append _ _)

include hM hclear in
/-- The marker makes the backup whole. -/
theorem Saving.marked
    (h : M.Saving [(M.source, name "source")] s)
    (hconfig : M.config ≠ M.source → M.Saved M.config (name "config-0") s) (data : Octets) :
    M.Moving (Migration.written s M.marker data) := by
  have hmade : Within M.backup M.start (makeDirs s M.backup) :=
    h.1.within.grows (grows_makeDirs _ _) fun _ _ hl => .inr hl
  have hsub {directory : Name} (hdirectory : directory ≠ name ".complete.json") {root : Path}
      (hsaved : M.Saved root directory s) :
      M.Saved root directory (Migration.written s M.marker data) := by
    intro l node hnode
    have hs := hsaved l node hnode
    have hne : M.backup ++ [directory] ++ l ≠ M.marker := by
      intro heq
      have hparts : directory = name ".complete.json" ∧ l = [] := by
        simpa [marker, markerOf] using heq
      exact hdirectory hparts.1
    rw [Migration.written, dropLast_marker, put_of_ne hne, (grows_makeDirs s M.backup).apply (hs ▸ Option.some_ne_none node),
      hs]
  refine ⟨fun l => ?_, ⟨⟨data, if_pos rfl⟩, ?_, fun hne => ?_⟩, fun node hnode => ?_⟩
  · by_cases hl : M.backup <+: l
    · exact .inr (.inr (.inl hl))
    · have hne : l ≠ M.marker := by
        rintro rfl
        exact hl (List.prefix_append _ _)
      rw [Migration.written, dropLast_marker, put_of_ne hne]
      rcases hmade l hl with hsame | ⟨hnone, -, hdirectory⟩
      · exact .inl hsame
      · exact .inr (.inr (.inr ⟨hnone, .inl hdirectory⟩))
  · exact hsub (by decide) (h.2 _ List.mem_cons_self)
  · exact hsub (by decide) (hconfig hne)
  · have hne : M.state ≠ M.marker := fun heq =>
      hclear.state_not_under (heq ▸ List.prefix_append _ _)
    rw [Migration.written, dropLast_marker, put_of_ne hne, Untouched.noState hM hclear hmade] at hnode
    cases hnode

include hM hclear in
theorem meets_finishBackup (e : Environment) (artifacts : List Artifact)
    (copies : List (Path × Name)) (hcopies : ∀ copy ∈ copies, copy.2 ≠ name "external")
    (hsource : (M.source, name "source") ∈ copies)
    (hconfig : M.config ≠ M.source → (M.config, name "config-0") ∈ copies) :
    Meets (fun s => M.Sound s.files) (fun s => M.Saving copies s.files)
      (finishBackup e M.backup M.source M.config artifacts)
      (fun _ s => M.Moving s.files) fun _ s => M.Sound s.files := by
  refine Meets.bind ((meets_backupExternal e artifacts hcopies []).mono (fun _ => .inl)
    (fun _ => id) (fun _ _ => id) fun _ _ => .inl) fun external => ?_
  refine Meets.mapError (E := fun _ s => M.Sound s.files) ?_ fun _ _ => id
  refine Meets.of_forall fun s hs => ?_
  have hmoving (data : Octets) : M.Moving (Migration.written s.files M.marker data) := by
    have hsaving : M.Saving [(M.source, name "source")] s.files :=
      ⟨hs.1, fun copy hcopy => List.mem_singleton.1 hcopy ▸ hs.2 _ hsource⟩
    exact hsaving.marked hM hclear (fun hne => hs.2 _ (hconfig hne)) data
  have hbeside (u : Progress) (hu : Beside e M.marker s.files u.files) : M.Sound u.files :=
    .inl (hs.1.beside hu)
  exact (meets_writeAtomic s.files M.marker _ hbeside
    fun u hu => .inr (hu ▸ hmoving _)).mono (fun _ => id) (fun u hu => by rw [hu])
      (fun _ u hu => hu ▸ hmoving _) fun _ => hbeside

include hM hclear in
/-- A backup is made, and its marker last. -/
theorem meets_makeBackup (r : M.Run) (artifacts : List Artifact) :
    Meets (fun s => M.Sound s.files) (fun s => M.Untouched s.files)
      (makeBackup r.environment M.backup M.source M.config artifacts)
      (fun _ s => M.Moving s.files) fun _ s => M.Sound s.files := by
  have huntouched (s : Progress) (hs : M.Untouched s.files) : M.Sound s.files := .inl hs
  have hsource := hclear M.source (.inl rfl)
  have hconfig := hclear M.config (.inr (.inl rfl))
  refine Meets.bind (Q := fun _ s => M.Untouched s.files)
    ((meets_isThere huntouched).post (fun _ _ hs => hs.1) fun _ _ => id) fun there => ?_
  refine Meets.ite_fail huntouched fun _ => ?_
  refine Meets.bind (Q := fun _ s => M.Saving [(M.source, name "source")] s.files)
    (Meets.mapError ((meets_copyTree r hsource hM.grounded.1 hM.lists.1 (by decide) (by simp)
      _).mono huntouched (fun _ hs => hs.saving) (fun _ _ => id) fun _ => huntouched)
      fun _ _ => id) fun _ => ?_
  refine Meets.bind (meets_isThere fun s hs => huntouched s hs.1) fun configThere => ?_
  by_cases hcopy : M.config ≠ M.source ∧ configThere = true
  · simp only [if_pos hcopy]
    refine Meets.bind (Meets.mapError ((meets_copyTree r hconfig hM.grounded.2 hM.lists.2
      (by decide) (by simp; decide) _).mono huntouched (fun _ hs => hs.1) (fun _ _ => id)
        fun _ => huntouched) fun _ _ => id) fun _ => ?_
    exact meets_finishBackup hM hclear _ artifacts _ (by simp; decide) (by simp) (by simp)
  · simp only [if_neg hcopy]
    -- a configuration that is not there has nothing to save
    have hmissing (s : Progress) (hs : M.Saving [(M.source, name "source")] s.files ∧
        (configThere = false → (∀ n, r.faults n (.metadata M.config) = none) →
          s.files M.config = none)) (hne : M.config ≠ M.source) :
        M.Saved M.config (name "config-0") s.files := by
      intro l node hnode
      have hfalse : configThere = false := by simpa [hne] using hcopy
      have hnone : M.start M.config = none := by
        have hsame := hs.1.1.source hconfig []
        rw [List.append_nil] at hsame
        exact hsame ▸ hs.2 hfalse (r.looks hne)
      have habove : M.start (M.config ++ []) ≠ none :=
        hM.grounded.2.above (l := l) (by simp [hnode])
      exact absurd (by simpa using hnone) habove
    by_cases hne : M.config = M.source
    · exact (meets_finishBackup hM hclear _ artifacts _ (by simp; decide) (by simp)
        fun h => absurd hne h).pre fun s hs => hs.1
    · refine (meets_finishBackup hM hclear _ artifacts
        [(M.config, name "config-0"), (M.source, name "source")]
        (by simp; decide) (by simp) (by simp)).pre fun s hs => ⟨hs.1.1, fun copy hcopy => ?_⟩
      rcases List.mem_cons.1 hcopy with rfl | hcopy
      · exact hmissing s hs hne
      · exact hs.1.2 copy hcopy

include hM hclear in
/-- The backup is made up to its marker, or it was made before. -/
theorem meets_ensureBackup (r : M.Run) (artifacts : List Artifact) {start : Files}
    (hstart : M.Sound start) :
    Meets (fun s => M.Sound s.files) (fun s => s.files = start)
      (ensureBackup r.environment M.backup M.source M.config artifacts)
      (fun _ s => M.Moving s.files ∧ (M.Moving start → s.files = start))
      fun _ s => M.Sound s.files := by
  have hsound (s : Progress) (hs : s.files = start) : M.Sound s.files := hs ▸ hstart
  have hstay {β : Type} {ε : Type} {m : Prog Progress ε β}
      (h : Keeps (fun s => s.files = start) m) :
      Meets (fun s => M.Sound s.files) (fun s => s.files = start) m
        (fun _ s => s.files = start) fun _ s => M.Sound s.files :=
    h.mono hsound (fun _ => id) (fun _ _ => id) fun _ => hsound
  refine Meets.bind (meets_attempt_symlinkMetadata M.marker hsound) fun found =>
    Meets.of_and fun hmarker => ?_
  rcases found with failure | node
  · cases failure with
    | other text => exact Meets.fail hsound
    | notFound =>
      -- without a marker nothing but the backup has been written yet
      have hunmarked := hmarker.2 rfl
      have hnot : ¬ M.Moving start := fun hmoving => by
        obtain ⟨data, hdata⟩ := hmoving.backedUp.marked
        rw [hunmarked] at hdata
        cases hdata
      have huntouched : M.Untouched start := hstart.resolve_right hnot
      exact (meets_makeBackup hM hclear r artifacts).mono (fun _ => id)
        (fun s (hs : s.files = start) => hs ▸ huntouched)
        (fun _ _ hs => ⟨hs, fun hmoving => absurd hmoving hnot⟩) fun _ _ => id
  · cases node with
    | directory => exact Meets.fail hsound
    | special => exact Meets.fail hsound
    | file data =>
      have hmoving : M.Moving start := hstart.resolve_left fun huntouched => by
        have hnode := hmarker.1 _ rfl
        rw [huntouched.unmarked] at hnode
        cases hnode
      refine Meets.bind (Meets.mapError (hstay keeps_asks) fun _ _ => id) fun data => ?_
      split_ifs
      · exact Meets.pure fun s hs => ⟨hs ▸ hmoving, fun _ => hs⟩
      · exact Meets.fail hsound

end Marker

/-! ### Behind the marker -/

section Moving

variable {M} {s u : Files} {N : Path → Node → Prop} {path : Path} {a b : Artifact} {data : Octets}
  {st : State} (hM : M.Prepared) (hclear : M.Clear)

theorem Alike.contents (h : Alike a b) (ha : M.Contents a data) : M.Contents b data := by
  obtain ⟨hkind, hdestination, hsource⟩ := h
  unfold Contents at ha ⊢
  by_cases hscheduler : a.kind = "scheduler"
  · rw [if_pos hscheduler] at ha
    rw [if_pos (hkind ▸ hscheduler), ← hdestination]
    exact ha
  · rw [if_neg hscheduler] at ha
    rw [if_neg (hkind ▸ hscheduler), ← hsource hscheduler]
    exact ha

theorem Done.mono (h : M.Done st s) (hsame : ∀ a ∈ M.artifacts, a.kind ≠ "secret-store" →
    M.Delivered a s → M.Delivered a u) : M.Done st u :=
  fun a ha hkind hdone => hsame a ha hkind (h a ha hkind hdone)

theorem Current.mono (h : M.Current st s) (hsame : ∀ a ∈ M.artifacts, a.kind ≠ "secret-store" →
    M.Delivered a s → M.Delivered a u) : M.Current st u :=
  { h with done := h.done.mono hsame }

theorem Delivered.grows (h : M.Delivered a s) (hgrows : Grows N s u) : M.Delivered a u := by
  obtain ⟨data, hcontents, hdata⟩ := h
  exact ⟨data, hcontents, by rw [hgrows.apply (by simp [hdata]), hdata]⟩

theorem Current.grows (h : M.Current st s) (hgrows : Grows N s u) : M.Current st u :=
  h.mono fun _ _ _ ha => ha.grows hgrows

/-- New directories and temporary files change nothing of what counts. -/
theorem Moving.grows (h : M.Moving s) (hgrows : Grows N s u)
    (hN : ∀ l node, N l node → l ≠ M.state ∧ (node = .directory ∨ Temporary l)) : M.Moving u := by
  refine ⟨fun l => ?_, ⟨?_, ?_, fun hne => ?_⟩, fun node hnode => ?_⟩
  · rcases hgrows l with hu | ⟨hnone, node, hu, hnode⟩
    · rw [hu]
      exact h.frame l
    · have hnew : u l = some .directory ∨ Temporary l :=
        (hN l node hnode).2.imp_left fun hdirectory => by rw [hu, hdirectory]
      rcases h.frame l with hs | hs | hs | ⟨hs, -⟩
      · exact .inr (.inr (.inr ⟨hs ▸ hnone, hnew⟩))
      · exact .inr (.inl hs)
      · exact .inr (.inr (.inl hs))
      · exact .inr (.inr (.inr ⟨hs, hnew⟩))
  · obtain ⟨data, hdata⟩ := h.backedUp.marked
    exact ⟨data, by rw [hgrows.apply (by simp [hdata]), hdata]⟩
  · intro l node hnode
    have hs := h.backedUp.source l node hnode
    rw [hgrows.apply (hs ▸ Option.some_ne_none node), hs]
  · intro l node hnode
    have hs := h.backedUp.config hne l node hnode
    rw [hgrows.apply (hs ▸ Option.some_ne_none node), hs]
  · -- the state itself is neither a directory nor a temporary file
    rcases hgrows M.state with hu | ⟨-, node, -, hnew⟩
    · rw [hu] at hnode
      obtain ⟨st, hst, hcurrent⟩ := h.recorded node hnode
      exact ⟨st, hst, hcurrent.grows hgrows⟩
    · exact absurd rfl (hN _ _ hnew).1

theorem Moving.beside {e : Environment} (h : M.Moving s) (hbeside : Beside e path s u)
    (hpath : ¬ M.state <+: path.dropLast) : M.Moving u := by
  refine h.grows hbeside fun l node hl => ?_
  rcases hl with ⟨hway, rfl⟩ | ⟨rfl, -⟩
  · exact ⟨fun heq => hpath (heq ▸ hway), .inl rfl⟩
  · exact ⟨temporary_ne_state e _, .inr ⟨path.dropLast, e.random, rfl⟩⟩

theorem Moving.makeDirs (h : M.Moving s) (hpath : ¬ M.state <+: path) :
    M.Moving (makeDirs s path) :=
  h.grows (grows_makeDirs s path) fun _ _ hl => ⟨fun heq => hpath (heq ▸ hl.1), .inl hl.2⟩

include hM hclear in
/-- A file in the place of a target leaves the backup alone. -/
theorem Moving.targeted (h : M.Moving s) (hpath : M.Target path) (node : Node)
    (hrecorded : ∀ node', put s path node M.state = some node' →
      ∃ st, node' = .file (jsonBytes st.value) ∧ M.Current st (put s path node)) :
    M.Moving (put s path node) := by
  have hunder (l : Path) : put s path node (M.backup ++ l) = s (M.backup ++ l) := by
    refine put_of_ne ?_
    rintro rfl
    exact hclear.target_not_under hM hpath (List.prefix_append _ _)
  refine ⟨fun l => ?_, ⟨?_, fun l node hnode => ?_, fun hne l node hnode => ?_⟩, hrecorded⟩
  · by_cases hl : l = path
    · exact .inr (.inl (hl ▸ hpath))
    · rw [put_of_ne hl]
      exact h.frame l
  · obtain ⟨data, hdata⟩ := h.backedUp.marked
    exact ⟨data, (hunder _).trans hdata⟩
  · rw [List.append_assoc, hunder, ← List.append_assoc]
    exact h.backedUp.source l node hnode
  · rw [List.append_assoc, hunder, ← List.append_assoc]
    exact h.backedUp.config hne l node hnode

theorem dropLast_state : M.state.dropLast = M.destination := by simp [state, statePath]

theorem not_state_above_destination : ¬ M.state <+: M.destination := fun h =>
  absurd h.length_le (by simp [state, statePath])

/-- Whatever is delivered at a destination is what is delivered there. -/
theorem Delivered.targeted (hM : M.Prepared) (ha : a ∈ M.artifacts) (hkind : a.kind ≠ "secret-store")
    (hcontents : M.Contents a data) (hb : b ∈ M.artifacts) (hkind' : b.kind ≠ "secret-store")
    (h : M.Delivered b s) : M.Delivered b (put s a.destination (.file data)) := by
  by_cases hdestination : a.destination = b.destination
  · have halike := hM.alike a ha b hb hkind hkind' (.inr hdestination)
    exact ⟨data, halike.contents hcontents, by simp [put, hdestination]⟩
  · obtain ⟨data', hcontents', hdata⟩ := h
    exact ⟨data', hcontents', by rw [put_of_ne fun heq => hdestination heq.symm, hdata]⟩

include hM hclear in
theorem Moving.delivered (h : M.Moving s) (ha : a ∈ M.artifacts) (hkind : a.kind ≠ "secret-store")
    (hcontents : M.Contents a data) : M.Moving (written s a.destination data) := by
  have hbeside := hM.besideState a ha hkind
  have hmade : M.Moving (FileTree.makeDirs s a.destination.dropLast) :=
    h.makeDirs fun hway => hbeside (hway.trans (List.dropLast_prefix _))
  have hne : M.state ≠ a.destination := fun heq => hbeside (heq ▸ List.prefix_rfl)
  refine hmade.targeted hM hclear (.inr ⟨a, ha, hkind, rfl⟩) _ fun node hnode => ?_
  rw [put_of_ne hne] at hnode
  obtain ⟨st, hst, hcurrent⟩ := hmade.recorded node hnode
  exact ⟨st, hst, hcurrent.mono fun b hb hkind' hdelivered =>
    hdelivered.targeted hM ha hkind hcontents hb hkind'⟩

include hM in
theorem Current.written_delivered (h : M.Current st s) (ha : a ∈ M.artifacts)
    (hkind : a.kind ≠ "secret-store") (hcontents : M.Contents a data) :
    M.Current st (written s a.destination data) :=
  (h.grows (grows_makeDirs s _)).mono fun _ hb hkind' hdelivered =>
    hdelivered.targeted hM ha hkind hcontents hb hkind'

include hM in
/-- The file of the state is no destination. -/
theorem Current.written_state (h : M.Current st s) (data : Octets) :
    M.Current st (written s M.state data) := by
  refine (h.grows (grows_makeDirs s M.state.dropLast)).mono fun b hb hkind hdelivered => ?_
  have hne : b.destination ≠ M.state := fun heq =>
    hM.besideState b hb hkind (heq ▸ List.prefix_rfl)
  obtain ⟨data', hcontents, hdata⟩ := hdelivered
  exact ⟨data', hcontents, by rw [Migration.written, put_of_ne hne, hdata]⟩

include hM hclear in
theorem Moving.recorded_state (h : M.Moving s) (hst : M.Current st s) :
    M.Moving (written s M.state (jsonBytes st.value)) := by
  have hmade : M.Moving (FileTree.makeDirs s M.state.dropLast) := by
    rw [dropLast_state]
    exact h.makeDirs not_state_above_destination
  refine hmade.targeted hM hclear (.inl rfl) _ fun node hnode => ⟨st, ?_, hst.written_state hM _⟩
  have hself : FileTree.put (FileTree.makeDirs s M.state.dropLast) M.state
      (.file (jsonBytes st.value)) M.state = some (.file (jsonBytes st.value)) := if_pos rfl
  rw [hself] at hnode
  exact (Option.some.inj hnode).symm

end Moving

/-! ### One artifact after another -/

section Items

variable {M} {s : Files} {st : State} {a : Artifact} {path : Path} {status : String}
  {files : Scheduler.Files} (hM : M.Prepared) (hclear : M.Clear) (r : M.Run)

/-- The backup is whole, and the state in memory is right. -/
def Moved (M : Installation) (st : State) (s : Progress) : Prop :=
  M.Moving s.files ∧ M.Current st s.files

/-- A file that is written behind the marker. -/
theorem meets_writeTarget (e : Environment) {data : Octets} {t : Progress}
    (h : M.Moving t.files) (hpath : ¬ M.state <+: path.dropLast)
    (hwritten : M.Moving (written t.files path data)) :
    Meets (fun s => M.Moving s.files) (fun s => s = t) (writeAtomic e path data)
      (fun _ s => s.files = written t.files path data) fun _ s => M.Moving s.files :=
  (meets_writeAtomic t.files path data (fun _ hs => h.beside hs hpath)
    fun _ hs => hs ▸ hwritten).mono (fun _ => id) (fun _ hs => by rw [hs]) (fun _ _ => id)
      fun _ _ hs => h.beside hs hpath

include hM hclear in
theorem meets_writeState (e : Environment) :
    Meets (fun s => M.Moving s.files) (fun s => M.Moved st s)
      (writeState e (statePath M.destination) st) (fun _ s => M.Moved st s)
      fun _ s => M.Moving s.files := by
  refine Meets.of_forall fun t ht => ?_
  have hpath : ¬ M.state <+: M.state.dropLast := by
    rw [dropLast_state]
    exact not_state_above_destination
  refine (meets_writeTarget e ht.1 hpath (ht.1.recorded_state hM hclear ht.2)).post
    (fun _ s hs => ?_) fun _ _ => id
  show M.Moving s.files ∧ M.Current st s.files
  rw [hs]
  exact ⟨ht.1.recorded_state hM hclear ht.2, ht.2.written_state hM _⟩

theorem keeps_setReport {P : Files → Prop} (f : Report → Report) :
    Keeps (fun s : Progress => P s.files) (setReport f) := Keeps.update fun _ => id

theorem moved_keeps {β ε : Type} {m : Prog Progress ε β} (h : Keeps (fun s => M.Moved st s) m) :
    Meets (fun s => M.Moving s.files) (fun s => M.Moved st s) m (fun _ s => M.Moved st s)
      fun _ s => M.Moving s.files :=
  h.mono (fun _ hs => hs.1) (fun _ => id) (fun _ _ => id) fun _ _ hs => hs.1

/-- What happens to the report does not matter. -/
theorem meets_setReport (f : Report → Report) :
    Meets (fun s => M.Moving s.files) (fun s => M.Moved st s) (setReport f)
      (fun _ s => M.Moved st s) fun _ s => M.Moving s.files :=
  moved_keeps (keeps_setReport (P := fun t => M.Moving t ∧ M.Current st t) f)

include hM in
/-- What was detected is as before the first run. -/
theorem Moving.found (h : M.Moving s) (ha : a ∈ M.artifacts) (hscheduler : a.kind ≠ "scheduler")
    (hsecret : a.kind ≠ "secret-store") {source : Path} (hsource : a.source = some source) :
    s source = M.start source := by
  obtain ⟨hthere, htarget⟩ := hM.found a ha hscheduler hsecret source hsource
  rcases h.frame source with hs | hs | ⟨l, rfl⟩ | ⟨hs, -⟩
  · exact hs
  · exact absurd hs htarget
  · exact absurd (hM.noBackup l) hthere
  · exact absurd hs hthere

/-- What an artifact brings, before the directory of the wrappers is filled in. -/
def Raw (M : Installation) (a : Artifact) (files : Scheduler.Files) (data : Octets) : Prop :=
  if a.kind = "scheduler" then
    ∃ content, files.lookup (a.destination.getLast?.getD []) = some content ∧
      data = Utf8.encode (String.ofList content)
  else ∃ source, a.source = some source ∧ M.start source = some (.file data)

include hM in
theorem meets_artifactData (ha : a ∈ M.artifacts) (hsecret : a.kind ≠ "secret-store") :
    Meets (fun s => M.Moving s.files) (fun s => M.Moved st s)
      (artifactData r.environment a files) (fun data s => M.Raw a files data ∧ M.Moved st s)
      fun _ s => M.Moving s.files := by
  unfold artifactData Raw
  by_cases hscheduler : a.kind = "scheduler"
  · simp only [if_pos hscheduler]
    cases hlookup : files.lookup (a.destination.getLast?.getD []) with
    | none => exact Meets.fail fun _ hs => hs.1
    | some content => exact Meets.pure fun s hs => ⟨⟨content, rfl, rfl⟩, hs⟩
  · simp only [if_neg hscheduler]
    cases hsource : a.source with
    | none => exact Meets.fail fun _ hs => hs.1
    | some source =>
      refine Meets.bind (Meets.mapError (moved_keeps keeps_asks) fun _ _ => id) fun node => ?_
      rcases node with _ | _ | _
      · refine Meets.mapError (E := fun _ s => M.Moving s.files) ((meets_read fun _ hs => hs.1).post
          (fun data s hs => ⟨⟨source, rfl, ?_⟩, hs.2⟩) fun _ _ hs => hs.1) fun _ _ => id
        rw [← hs.2.1.found hM ha hscheduler hsecret hsource]
        exact hs.1
      · exact Meets.fail fun _ hs => hs.1
      · exact Meets.fail fun _ hs => hs.1

include hM hclear in
/-- What is delivered without an error is in its place. -/
theorem meets_deliver (ha : a ∈ M.artifacts)
    (hfiles : generated M.environment M.options M.destination = .ok files) :
    Meets (fun s => M.Moving s.files) (fun s => M.Moved st s)
      (deliver r.environment r.options M.destination files a)
      (fun _ s => (a.kind ≠ "secret-store" → M.Delivered a s.files) ∧ M.Moved st s)
      fun _ s => M.Moving s.files := by
  unfold deliver
  by_cases hsecret : a.kind = "secret-store"
  · rw [if_pos hsecret]
    split
    · exact Meets.pure fun s hs => ⟨fun h => absurd hsecret h, hs⟩
    · exact Meets.fail fun _ hs => hs.1
  · rw [if_neg hsecret]
    refine Meets.bind (Meets.mapError (meets_artifactData hM r ha hsecret) fun _ _ => id)
      fun raw => Meets.of_and fun hraw => ?_
    have hcontents : M.Contents a
        (if a.kind = "scheduler" then filledIn r.options M.destination raw else raw) := by
      unfold Raw at hraw
      unfold Contents
      by_cases hscheduler : a.kind = "scheduler"
      · simp only [if_pos hscheduler] at hraw ⊢
        obtain ⟨content, hlookup, rfl⟩ := hraw
        exact ⟨files, content, hfiles, hlookup, rfl⟩
      · simp only [if_neg hscheduler] at hraw ⊢
        exact hraw
    refine Meets.mapError (E := fun _ s => M.Moving s.files) ?_ fun _ _ => id
    refine Meets.of_forall fun t ht => ?_
    have hmoving := ht.1.delivered hM hclear ha hsecret hcontents
    refine (meets_writeTarget r.environment ht.1 (fun h => hM.besideState a ha hsecret
      (h.trans (List.dropLast_prefix _))) hmoving).post (fun _ s hs => ?_) fun _ _ => id
    show _ ∧ M.Moving s.files ∧ M.Current st s.files
    rw [hs]
    exact ⟨fun _ => ⟨_, hcontents, if_pos rfl⟩, hmoving,
      ht.2.written_delivered hM ha hsecret hcontents⟩

theorem itemStatus_mark (st : State) (id id' status : String) :
    itemStatus (st.mark id status) id' = if id' = id then some status else itemStatus st id' := by
  unfold itemStatus State.mark
  rw [Option.bind_some, BTreeMap.insert, BTreeMap.get_alter]
  split_ifs with h
  · rfl
  · cases st.items with
    | none => rfl
    | some items => rfl

include hM in
/-- An artifact may be marked as done when it is delivered. -/
theorem Current.mark (h : M.Current st s) (ha : a ∈ M.artifacts)
    (hdelivered : status = "done" → a.kind ≠ "secret-store" → M.Delivered a s) :
    M.Current (st.mark a.id status) s := by
  refine ⟨h.version, h.sourceRoot, h.destinationRoot, h.backupDir, fun b hb hkind hdone => ?_⟩
  rw [itemStatus_mark] at hdone
  split_ifs at hdone with hid
  · -- an artifact of the same identifier gets the same contents
    have hkind' : a.kind ≠ "secret-store" := fun hsecret =>
      hkind ((hM.secrets a ha b hb hid.symm).1 hsecret)
    have halike := hM.alike a ha b hb hkind' hkind (.inl hid.symm)
    obtain ⟨data, hcontents, hdata⟩ := hdelivered (Option.some.inj hdone) hkind'
    exact ⟨data, halike.contents hcontents, halike.2.1 ▸ hdata⟩
  · exact h.done b hb hkind hdone

include hM hclear in
theorem meets_migrateItem (ha : a ∈ M.artifacts)
    (hfiles : generated M.environment M.options M.destination = .ok files) (i : ℕ) :
    Meets (fun s => M.Moving s.files) (fun s => M.Moved st s)
      (migrateItem r.environment r.options M.destination files i a st) (fun st' s => M.Moved st' s)
      fun _ s => M.Moving s.files := by
  unfold migrateItem
  by_cases hdone : itemStatus st a.id = some "done"
  · rw [if_pos hdone]
    exact (meets_setReport _).bind fun _ => Meets.pure fun _ => id
  · rw [if_neg hdone]
    cases (r.options.beforeItem.getD fun _ => .ok ()) a with
    | error error => exact (meets_setReport _).bind fun _ => Meets.fail fun _ hs => hs.1
    | ok _ =>
      dsimp only
      by_cases hmanual : a.kind = "secret-store" ∧ ¬ r.options.copySecrets
      · rw [if_pos hmanual]
        refine (meets_setReport _).bind fun _ => (meets_setReport _).bind fun _ => ?_
        have hmark : Meets (fun s => M.Moving s.files) (fun s => M.Moved st s)
            (writeState r.environment (statePath M.destination) (st.mark a.id "manual")) _ _ :=
          (meets_writeState hM hclear _).pre fun s hs =>
            ⟨hs.1, hs.2.mark hM ha fun h => absurd h (by decide)⟩
        exact hmark.bind fun _ => Meets.pure fun _ => id
      · rw [if_neg hmanual]
        refine Meets.bind (Meets.attempt (meets_deliver hM hclear r ha hfiles)) fun delivered => ?_
        rcases delivered with ⟨itemError, error⟩ | _
        · refine Meets.bind (Q := fun _ s => M.Moving s.files) ?_ fun _ => Meets.fail fun _ => id
          exact keeps_setReport _
        · refine Meets.bind (Q := fun _ s => M.Moved (st.mark a.id "done") s) ?_ fun _ => ?_
          · refine (meets_setReport _).pre fun s hs => ⟨hs.2.1, ?_⟩
            exact hs.2.2.mark hM ha fun _ => hs.1
          · exact (meets_writeState hM hclear _).bind fun _ => Meets.pure fun _ => id

include hM hclear in
theorem meets_migrateItems
    (hfiles : generated M.environment M.options M.destination = .ok files)
    (artifacts : List Artifact) (hartifacts : ∀ a ∈ artifacts, a ∈ M.artifacts) (i : ℕ) :
    Meets (fun s => M.Moving s.files) (fun s => M.Moved st s)
      (migrateItems r.environment r.options M.destination files i artifacts st)
      (fun st' s => M.Moved st' s) fun _ s => M.Moving s.files := by
  induction artifacts generalizing i st with
  | nil => exact Meets.pure fun _ => id
  | cons a artifacts ih =>
    refine Meets.bind (meets_migrateItem hM hclear r (hartifacts a (by simp)) hfiles i) fun st' => ?_
    exact ih (fun b hb => hartifacts b (by simp [hb])) (i + 1)

end Items

/-! ### Runs -/

section Runs

variable {M} {s : Files} {st : State} (hM : M.Prepared) (r : M.Run)

/-- Before the backup directory has passed the check, nothing has changed. -/
def Passed (M : Installation) (s : Files) : Prop := s = M.start ∨ M.Clear ∧ M.Sound s

/-- What a run goes on from. -/
def Loaded (M : Installation) (st : State) (s : Files) : Prop :=
  st = {} ∨ M.Moving s ∧ M.Current st s

include hM in
theorem untouched_start : M.Untouched M.start := ⟨hM.noBackup _, Within.refl _ _⟩

include hM in
theorem Passed.sound (h : M.Passed s) : M.Sound s := by
  rcases h with rfl | ⟨-, h⟩
  · exact .inl (untouched_start hM)
  · exact h

theorem plain_normal {path : Path} (h : ∀ part ∈ path, Paths.Simple part) :
    ∀ c ∈ path.map Paths.Component.normal, c.Plain := by
  intro c hc
  obtain ⟨part, hpart, rfl⟩ := List.mem_map.1 hc
  exact h part hpart

theorem pathOf_display {path : Path} (h : ∀ part ∈ path, Paths.Simple part) :
    pathOf (display path) = path := by
  have hwalk (names dir : List Name) :
      (names.map Paths.Component.normal).foldl Paths.walk dir = dir ++ names := by
    induction names generalizing dir with
    | nil => simp
    | cons part names ih => rw [List.map_cons, List.foldl_cons, Paths.walk, ih]; simp
  rw [pathOf, display, String.toList_ofList, Paths.resolve,
    Paths.components_ofComponents_rootDir (plain_normal h), List.foldl_cons, Paths.walk, hwalk]
  rfl

theorem display_ne_empty {path : Path} (h : ∀ part ∈ path, Paths.Simple part) :
    display path ≠ "" := by
  rw [display, Paths.ofComponents_rootDir (plain_normal h)]
  intro hempty
  simpa using congrArg String.toList hempty

include hM in
theorem backupOf_loaded (h : M.Loaded st s) : backupOf r.options M.destination st = M.backup := by
  rcases h with rfl | ⟨-, h⟩
  · rfl
  · rw [backupOf, h.backupDir, if_pos (display_ne_empty hM.simple), pathOf_display hM.simple]

include hM in
/-- The state of an earlier run is read as it was written. -/
theorem meets_loadState {start : Files} (hstart : M.Passed start) :
    Meets (fun s => M.Passed s.files) (fun s => s.files = start)
      (loadState r.environment M.source M.destination)
      (fun st s => M.Loaded st start ∧ s.files = start) fun _ s => M.Passed s.files := by
  have hpassed (s : Progress) (hs : s.files = start) : M.Passed s.files := hs ▸ hstart
  refine Meets.bind (Meets.attempt (meets_read hpassed)) fun found => ?_
  rcases found with failure | data
  · cases failure with
    | notFound => exact Meets.pure fun _ hs => ⟨.inl rfl, hs⟩
    | other text => exact Meets.fail hpassed
  · refine Meets.pre (P := fun s => start M.state = some (.file data) ∧ s.files = start)
      (Meets.of_and fun hfile => ?_) fun s hs => ⟨hs.2 ▸ hs.1, hs.2⟩
    have hrecorded : M.Moving start ∧ ∃ st, data = jsonBytes st.value ∧ M.Current st start := by
      rcases hstart with rfl | ⟨hclear, huntouched | hmoving⟩
      · rw [hM.noState] at hfile
        cases hfile
      · rw [Untouched.noState hM hclear huntouched.within] at hfile
        cases hfile
      · obtain ⟨st, hst, hcurrent⟩ := hmoving.recorded _ hfile
        exact ⟨hmoving, st, Node.file.inj hst, hcurrent⟩
    obtain ⟨hmoving, st, rfl, hcurrent⟩ := hrecorded
    simp only [state_jsonBytes st]
    rw [if_neg (by simp [hcurrent.version, hcurrent.sourceRoot, hcurrent.destinationRoot]),
      if_neg (by rw [hcurrent.backupDir]; exact display_ne_empty hM.simple)]
    refine Meets.bind (Q := fun _ s => s.files = start) ?_ fun _ =>
      Meets.pure fun _ hs => ⟨.inr ⟨hmoving, hcurrent⟩, hs⟩
    exact (keeps_setReport (P := fun t => t = start) _).mono hpassed (fun _ => id)
      (fun _ _ => id) fun _ => hpassed

/-- The backup directory that passed the check of a run is clear. -/
theorem clear_of_overlap {platform : Scheduler.Platform}
    (hplatform : platformOf r.environment r.options = .ok platform)
    (h : ¬ (([M.source, M.destination, M.config, M.configDestination] ++
      r.options.schedulerSource.toList ++ r.options.schedulerDest.toList ++
        (nativeRoot r.environment r.options.homeDir platform).toList).any
          (overlap · M.backup)) = true) : M.Clear := by
  intro root hroot
  rw [← overlap_eq_false]
  by_contra hoverlap
  refine h (List.any_eq_true.2 ⟨root, ?_, by simpa using hoverlap⟩)
  rcases hroot with rfl | rfl | rfl | rfl | hdest | ⟨platform', hplatform', hnative⟩
  · simp
  · simp
  · simp
  · simp
  · have hoption : r.options.schedulerDest = some root := hdest
    simp [hoption]
  · have hsame : platform' = platform := Except.ok.inj (hplatform'.symm.trans hplatform)
    have hoption : nativeRoot r.environment r.options.homeDir platform = some root :=
      hsame ▸ hnative
    simp [hoption]

theorem itemStatus_begun (hversion : st.version ≠ 0) (source destination backup : Path)
    (id : String) : itemStatus (begun source destination backup st) id = itemStatus st id := by
  rw [begun, if_neg hversion]
  unfold itemStatus
  cases st.items with
  | none => rfl
  | some items => rfl

/-- A run goes on from the state of an earlier one, or begins a state. -/
theorem Loaded.current (hloaded : M.Loaded st s) {u : Files} (hstays : M.Moving s → u = s) :
    M.Current (begun M.source M.destination M.backup st) u := by
  rcases hloaded with rfl | ⟨hmoving, h⟩
  · exact ⟨rfl, rfl, rfl, rfl, fun a _ _ hdone => by cases hdone⟩
  · have hversion : st.version ≠ 0 := by
      rw [h.version]
      decide
    have hdone : M.Done (begun M.source M.destination M.backup st) u := by
      intro a ha hkind hdone
      rw [itemStatus_begun hversion] at hdone
      rw [hstays hmoving]
      exact h.done a ha hkind hdone
    refine ⟨?_, ?_, ?_, ?_, hdone⟩ <;> rw [begun, if_neg hversion]
    · exact h.version
    · exact h.sourceRoot
    · exact h.destinationRoot
    · exact h.backupDir

include hM in
/-- One run, whatever fails. -/
theorem meets_program :
    Meets (fun s => M.Passed s.files) (fun s => M.Passed s.files ∧ s.report = r.report) r.program
      (fun _ s => (M.Clear ∧ M.Moving s.files) ∧ (s.report.complete = true →
        ∀ a ∈ r.artifacts, a.kind ≠ "secret-store" → M.Delivered a s.files))
      fun _ s => M.Passed s.files := by
  refine Meets.of_forall fun start hstart => ?_
  have hpassed (s : Progress) (hs : s.files = start.files) : M.Passed s.files := hs ▸ hstart.1
  refine Meets.bind (Q := fun report s => report = r.report ∧ s.files = start.files)
    (Meets.inspect fun s hs => ⟨hs ▸ hstart.2, by rw [hs]⟩) fun report => Meets.of_and ?_
  rintro rfl
  refine Meets.ite_fail hpassed fun _ => ?_
  refine Meets.bind (meets_loadState hM r hstart.1) fun st => Meets.of_and fun hloaded => ?_
  dsimp only
  rw [backupOf_loaded hM r hloaded]
  -- up to the check of the backup directory nothing is written
  refine Meets.bind (Q := fun _ s => s.files = start.files) (Meets.mapError
    ((keeps_rejectFrom [] _).mono hpassed (fun _ => id) (fun _ _ => id) fun _ => hpassed)
      fun _ _ => id) fun _ => ?_
  refine Meets.bind_ofExcept (fun _ _ => hpassed) fun platform hplatform => ?_
  refine Meets.ite_fail hpassed fun hoverlap => ?_
  have hclear : M.Clear := clear_of_overlap r hplatform hoverlap
  have hpassing (s : Progress) (hs : M.Sound s.files) : M.Passed s.files := .inr ⟨hclear, hs⟩
  refine Meets.mono (I := fun s => M.Sound s.files) (P := fun s => s.files = start.files)
    (Q := fun _ s => M.Moving s.files ∧ (s.report.complete = true →
      ∀ a ∈ r.artifacts, a.kind ≠ "secret-store" → M.Delivered a s.files))
    (E := fun _ s => M.Sound s.files) ?_ hpassing (fun _ => id)
    (fun _ s hs => ⟨⟨hclear, hs.1⟩, hs.2⟩) fun _ => hpassing
  refine Meets.bind (meets_ensureBackup hM hclear r _ (hstart.1.sound hM)) fun _ => ?_
  -- from here on the marker is there
  refine Meets.mono (I := fun s => M.Moving s.files) (E := fun _ s => M.Moving s.files)
    (Q := fun _ s => M.Moving s.files ∧ (s.report.complete = true →
      ∀ a ∈ r.artifacts, a.kind ≠ "secret-store" → M.Delivered a s.files))
    (P := fun s => M.Moving s.files ∧ (M.Moving start.files → s.files = start.files))
    ?_ (fun _ => .inr) (fun _ => id) (fun _ _ => id) fun _ _ => .inr
  generalize hbegun : begun M.source M.destination M.backup st = st'
  have hmoved {u : Progress} (hmoving : M.Moving u.files)
      (hstays : M.Moving start.files → u.files = start.files) : M.Moved st' u :=
    ⟨hmoving, hbegun ▸ hloaded.current hstays⟩
  refine Meets.bind (Q := fun _ s => M.Moved st' s)
    ((meets_setReport _).pre fun s hs => hmoved hs.1 hs.2) fun _ => ?_
  refine Meets.bind (Q := fun _ s => M.Moved st' s) (Meets.mapError
    (E := fun _ s => M.Moving s.files) (Meets.of_forall fun u hu => ?_) fun _ _ => id) fun _ => ?_
  · have hgrows {t : Files}
        (ht : Grows (fun l node => l <+: M.destination ∧ node = .directory) u.files t) :
        M.Moving t :=
      hu.1.grows ht fun _ _ hl => ⟨fun heq => not_state_above_destination (heq ▸ hl.1), .inl hl.2⟩
    refine (meets_mkdir u.files M.destination fun _ => hgrows).mono (fun _ => id)
      (fun _ hs => by rw [hs]) (fun _ s hs => ?_) fun _ _ => hgrows
    have hmade := grows_makeDirs u.files M.destination
    rw [← hs.2] at hmade
    exact ⟨hgrows hmade, hu.2.grows hmade⟩
  · refine Meets.bind (meets_writeState hM hclear _) fun _ => ?_
    refine Meets.bind_ofExcept (fun _ _ _ hs => hs.1) fun files hfiles => ?_
    have hknown : ∀ a ∈ r.artifacts, a ∈ M.artifacts := by
      intro a ha
      obtain ⟨item, hitem, rfl⟩ := List.mem_map.1 ha
      exact r.known item hitem
    refine Meets.bind (meets_migrateItems hM hclear r hfiles r.artifacts hknown 0) fun st'' => ?_
    refine Meets.update (fun s hs => hs.1) fun s hs => ⟨hs.1, fun hcomplete a ha hkind => ?_⟩
    exact hs.2.done a (hknown a ha) hkind (by simpa using List.all_eq_true.1 hcomplete a ha)

include hM in
/-- Runs that may stop anywhere keep what one run keeps. -/
theorem Reachable.passed (h : M.Reachable s) : M.Passed s := by
  induction h with
  | start => exact .inl rfl
  | @run s r h moment hmoment ih =>
    obtain ⟨passed, hpassed, hall⟩ := (meets_program hM r ⟨⟨s, r.report⟩, 0, []⟩ ⟨ih, rfl⟩).1
    rw [List.append_nil] at hpassed
    exact hall moment (hpassed ▸ hmoment)

end Runs

end Installation

open Installation in
/-- Wherever runs stop and whatever fails in them: before the backup has its marker nothing else is
changed, but for directories on the way to it; from then on all of both trees is in the backup,
whatever was there is as it was but for the destinations, and the state counts as done what is
delivered only (`Sound`).  A run that reports the migration as complete has delivered all its
artifacts but secrets. -/
theorem migration_resumes (M : Installation) (hM : M.Prepared) :
    (∀ s, M.Reachable s → M.Sound s) ∧
      ∀ s, M.Reachable s → ∀ r : M.Run, (r.from s).1 = .ok () →
        (r.from s).2.state.report.complete = true →
          M.BackedUp (r.from s).2.state.files ∧
            ∀ a ∈ r.artifacts, a.kind ≠ "secret-store" → M.Delivered a (r.from s).2.state.files := by
  refine ⟨fun s hs => (hs.passed hM).sound hM, fun s hs r hok hcomplete => ?_⟩
  have hends := (meets_program hM r ⟨⟨s, r.report⟩, 0, []⟩ ⟨hs.passed hM, rfl⟩).2
  have hrun : r.program ⟨⟨s, r.report⟩, 0, []⟩ = r.from s := rfl
  rw [hrun, hok] at hends
  exact ⟨hends.1.2.backedUp, hends.2 hcomplete⟩

/-- An installation with one file of events. -/
def oneDatabase : Installation where
  environment := {
    faults _ _ := none
    listing s path := [name "symeraseme.db"].filter fun part => s (path ++ [part]) ≠ none
    depth := 8
    random := name "x7"
    around := ⟨.cron, .ok (name "/bin/eraseme"), .ok (name "/home"), .ok (name "/home")⟩
    workingDirectory := [] }
  options := {
    backupDir := some [name "saved"]
    homeDir := none
    platform := name "cron"
    schedulerSource := none
    schedulerDest := none
    binaryPath := []
    projectDir := []
    schedulerConfig := {}
    copySecrets := false
    secretStore := none
    beforeItem := none }
  source := [name "old"]
  destination := [name "new"]
  config := [name "old"]
  configDestination := [name "new"]
  start := fun l =>
    if l = [] ∨ l = [name "old"] then some .directory
    else if l = [name "old", name "symeraseme.db"] then some (.file [1, 2]) else none
  artifacts := [⟨"event-db", "event-db", some [name "old", name "symeraseme.db"],
    [name "new", name "symeraseme.db"], "Python-era event database found"⟩]

def oneDatabaseRun : oneDatabase.Run where
  faults _ _ := none
  random := name "x7"
  copySecrets := false
  secretStore := none
  beforeItem := none
  report := {
    detection := ⟨true, "", none, {}, some oneDatabase.artifacts⟩
    dryRun := false
    resumed := false
    backupDir := ""
    items := some (oneDatabase.artifacts.map (⟨·, "planned", ""⟩))
    warnings := []
    complete := false }
  known := by decide
  looks := fun h => absurd rfl h

theorem oneDatabase_start {l : Path} (h : oneDatabase.start l ≠ none) :
    l = [] ∨ l = [name "old"] ∨ l = [name "old", name "symeraseme.db"] := by
  simp only [oneDatabase] at h
  split_ifs at h with hdirectory hdatabase
  · exact hdirectory.imp_right .inl
  · exact .inr (.inr hdatabase)
  · exact absurd rfl h

theorem oneDatabase_below {p : Path} {part : Name}
    (h : oneDatabase.start ([name "old"] ++ p ++ [part]) ≠ none) :
    p = [] ∧ part = name "symeraseme.db" := by
  rcases oneDatabase_start h with h | h | h
  · simp at h
  · simp at h
  · have htail : p ++ [part] = [] ++ [name "symeraseme.db"] := (List.cons.inj h).2
    obtain ⟨hp, hpart⟩ := List.append_inj' htail rfl
    exact ⟨hp, List.singleton_inj.1 hpart⟩

theorem oneDatabase_prepared : oneDatabase.Prepared := by
  have hgrounded : Grounded oneDatabase.start [name "old"] := by
    intro p part h
    obtain ⟨rfl, rfl⟩ := oneDatabase_below h
    decide
  have hlists : Lists oneDatabase.environment oneDatabase.start [name "old"] := by
    intro s hs p part h
    obtain ⟨rfl, rfl⟩ := oneDatabase_below h
    have hthere : s ([name "old"] ++ [name "symeraseme.db"]) ≠ none := by
      rw [hs]
      decide
    simpa [oneDatabase] using hthere
  have htarget {l : Path} (h : oneDatabase.Target l) : l.head? = some (name "new") := by
    rcases h with rfl | ⟨a, ha, -, rfl⟩
    · decide
    · rw [List.mem_singleton.1 ha]
      rfl
  refine ⟨by decide, fun l => ?_, by decide, ⟨hgrounded, hgrounded⟩, ⟨hlists, hlists⟩, ?_, ?_, ?_, ?_,
    ?_⟩
  · by_contra h
    rcases oneDatabase_start h with h | h | h
    · cases h
    · exact absurd (List.cons.inj h).1 (by decide)
    · exact absurd (List.cons.inj h).1 (by decide)
  · rintro a ha - - source hsource
    rw [List.mem_singleton.1 ha] at hsource
    cases hsource
    exact ⟨by decide, fun h => absurd (htarget h) (by decide)⟩
  · rintro a ha b hb - - -
    rw [List.mem_singleton.1 ha, List.mem_singleton.1 hb]
    exact ⟨rfl, rfl, fun _ => rfl⟩
  · intro a ha b hb _
    rw [List.mem_singleton.1 ha, List.mem_singleton.1 hb]
  · rintro a ha -
    rw [List.mem_singleton.1 ha]
    exact ⟨_, .inl rfl, by decide⟩
  · rintro a ha -
    rw [List.mem_singleton.1 ha]
    decide

theorem migration_resumes_oneDatabase :
    (oneDatabaseRun.from oneDatabase.start).1 = .ok () ∧
      oneDatabase.BackedUp (oneDatabaseRun.from oneDatabase.start).2.state.files := by
  have hok : (oneDatabaseRun.from oneDatabase.start).1 = .ok () := by decide +kernel
  have hcomplete : (oneDatabaseRun.from oneDatabase.start).2.state.report.complete = true := by
    decide +kernel
  exact ⟨hok, ((migration_resumes oneDatabase oneDatabase_prepared).2 _ .start oneDatabaseRun hok
    hcomplete).1⟩

end EraseMe.Migration
