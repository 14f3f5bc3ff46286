import EraseMe.Registry.Extraction

/-!
# All or nothing

Whatever fails, the destination holds its old tree or the complete new one; or it is empty, with the
old tree in the backup directory.  This is so at every moment of a synchronisation and not only at
its end, and nothing else is touched but the two temporary directories.
-/

namespace EraseMe.Registry.Sync

open Faulty Faulty.Prog FileTree

/-! ### The places of a synchronisation -/

/-- Where an archive is unpacked. -/
def stagingPath (e : Environment) (d : Destination) : Path :=
  d.parent ++ [tempName e ".registry-sync-"]

/-- Where the old registry waits. -/
def backupPath (e : Environment) (d : Destination) : Path :=
  d.parent ++ [tempName e ".registry-backup-"]

/-- Where the old tree waits. -/
def backupOld (e : Environment) (d : Destination) : Path := backupPath e d ++ [osString "old"]

/-- A temporary directory does not get the name of the destination. -/
structure Fresh (e : Environment) (d : Destination) : Prop where
  staging : d.name ≠ tempName e ".registry-sync-"
  backup : d.name ≠ tempName e ".registry-backup-"

/-- The prefixes alone keep the two temporary directories apart. -/
theorem tempName_ne (e : Environment) :
    tempName e ".registry-sync-" ≠ tempName e ".registry-backup-" := by
  intro h
  have htake : (tempName e ".registry-sync-").take 11 =
      (tempName e ".registry-backup-").take 11 := by
    rw [h]
  have hsync : (tempName e ".registry-sync-").take 11 = (osString ".registry-sync-").take 11 :=
    List.take_append_of_le_length (by decide)
  have hbackup : (tempName e ".registry-backup-").take 11 =
      (osString ".registry-backup-").take 11 :=
    List.take_append_of_le_length (by decide)
  rw [hsync, hbackup] at htake
  exact absurd htake (by decide)

variable {e : Environment} {url : String} {d : Destination} {base s u : Tree} {p q : Path}

theorem Fresh.apart_staging (h : Fresh e d) : Apart (stagingPath e d) d.path :=
  (apart_append_singleton _ h.staging).symm

theorem Fresh.apart_backup (h : Fresh e d) : Apart (backupPath e d) d.path :=
  (apart_append_singleton _ h.backup).symm

theorem apart_staging_backup (e : Environment) (d : Destination) :
    Apart (stagingPath e d) (backupPath e d) :=
  apart_append_singleton _ (tempName_ne e)

theorem Fresh.apart_backupOld (h : Fresh e d) : Apart (backupOld e d) d.path :=
  (h.apart_backup.symm.append _).symm

theorem apart_staging_backupOld (e : Environment) (d : Destination) :
    Apart (stagingPath e d) (backupOld e d) :=
  (apart_staging_backup e d).append _

/-! ### What may be touched -/

/-- A path of the destination or of a temporary directory. -/
def Ours (e : Environment) (d : Destination) (l : Path) : Prop :=
  d.path <+: l ∨ stagingPath e d <+: l ∨ backupPath e d <+: l

/-- Everything else is as in `base`, but for directories made on the way to the destination. -/
def Frame (e : Environment) (d : Destination) (base s : Tree) : Prop :=
  ∀ l, ¬ Ours e d l → s l = base l ∨ l <+: d.parent ∧ base l = none ∧ s l = some .directory

theorem Ours.append (h : Ours e d p) (hp : p <+: q) : Ours e d q := by
  rcases h with h | h | h
  · exact .inl (h.trans hp)
  · exact .inr (.inl (h.trans hp))
  · exact .inr (.inr (h.trans hp))

theorem ours_path : Ours e d d.path := .inl (List.prefix_refl _)

theorem ours_staging : Ours e d (stagingPath e d) := .inr (.inl (List.prefix_refl _))

theorem ours_backup : Ours e d (backupPath e d) := .inr (.inr (List.prefix_refl _))

theorem ours_backupOld : Ours e d (backupOld e d) := .inr (.inr (List.prefix_append _ _))

theorem Frame.graft (h : Frame e d base s) (hp : Ours e d p) : Frame e d base (graft s p u) := by
  intro l hl
  rw [graft_of_not_under fun hpl => hl (hp.append hpl)]
  exact h l hl

theorem Frame.move (h : Frame e d base s) (hp : Ours e d p) (hq : Ours e d q) :
    Frame e d base (move s p q) := (h.graft hp).graft hq

/-- Directories on the way to the parent are no others than that. -/
theorem frame_makeDirs {l : Path} (hl : l <+: d.parent) : Frame e d base (makeDirs base l) := by
  intro k _
  by_cases hk : k <+: l
  · rcases makeDirsFrom_eq_or base [] l k with h | ⟨hnone, h⟩
    · exact .inl h
    · exact .inr ⟨hk.trans hl, hnone, h⟩
  · exact .inl (makeDirsFrom_of_not_under (by simpa using hk))

theorem sub_makeDirs {l : Path} (hl : l <+: d.parent) :
    sub (makeDirs base l) d.path = sub base d.path := by
  funext k
  refine makeDirsFrom_of_not_under fun hk => ?_
  have hlength := (hk.trans hl).length_le
  simp [Destination.path] at hlength

/-! ### The states on the way -/

/-- The destination is as before. -/
def Unchanged (e : Environment) (d : Destination) (base s : Tree) : Prop :=
  Frame e d base s ∧ sub s d.path = sub base d.path

/-- The destination is empty and its old tree is in the backup. -/
def SetAside (e : Environment) (d : Destination) (base s : Tree) : Prop :=
  Frame e d base s ∧ sub s d.path = absent ∧ sub s (backupOld e d) = sub base d.path

/-- The destination holds the tree `t`. -/
def Installed (e : Environment) (d : Destination) (base t s : Tree) : Prop :=
  Frame e d base s ∧ sub s d.path = t

/-- What awaits the staging directory, with or without an old tree. -/
def Waiting (e : Environment) (d : Destination) (base : Tree) : Bool → Tree → Prop
  | false => Unchanged e d base
  | true => SetAside e d base

/-- A tree that was downloaded, unpacked and loaded. -/
def Accepted (e : Environment) (url : String) (t : Tree) : Prop :=
  ∃ response compressed es,
    e.transport url requestTimeout = .ok response ∧ response.status = 200 ∧
      readBounded response.body maxCompressedBytes [] 0 = .ok compressed ∧
      (e.archive compressed).entries = .ok (List.map .ok es) ∧ t = unpack es ∧
      e.loadFromDir t = .ok ()

/-- What holds at every moment. -/
def Safe (e : Environment) (url : String) (d : Destination) (base s : Tree) : Prop :=
  Unchanged e d base s ∨ SetAside e d base s ∨ ∃ t, Accepted e url t ∧ Installed e d base t s

/-- The ends of a synchronisation that fails. -/
inductive Refused (e : Environment) (url : String) (d : Destination) (base : Tree) :
    RegistryError → Tree → Prop
  | unchanged {error : RegistryError} {s : Tree} (h : Unchanged e d base s) :
      Refused e url d base error s
  | backupLeft {source : IoError} {s t : Tree} (ht : Accepted e url t)
      (h : Installed e d base t s) : Refused e url d base (.io (backupPath e d) source) s
  | backupRetained {error : RegistryError} {s : Tree} (h : SetAside e d base s) :
      Refused e url d base error s

section Graft

variable {t : Tree} {hadOld : Bool} {error : RegistryError}

/-- A path away from the destination, in one of the temporary directories. -/
structure Aside (e : Environment) (d : Destination) (p : Path) : Prop where
  ours : Ours e d p
  apart : Apart p d.path

theorem Fresh.aside_staging (h : Fresh e d) : Aside e d (stagingPath e d) :=
  ⟨ours_staging, h.apart_staging⟩

theorem Fresh.aside_backup (h : Fresh e d) : Aside e d (backupPath e d) :=
  ⟨ours_backup, h.apart_backup⟩

theorem Unchanged.graft (h : Unchanged e d base s) (hp : Aside e d p) :
    Unchanged e d base (graft s p u) :=
  ⟨h.1.graft hp.ours, (sub_graft_of_apart hp.apart).trans h.2⟩

theorem Installed.graft (h : Installed e d base t s) (hp : Aside e d p) :
    Installed e d base t (graft s p u) :=
  ⟨h.1.graft hp.ours, (sub_graft_of_apart hp.apart).trans h.2⟩

theorem SetAside.graft_staging (h : SetAside e d base s) (hfresh : Fresh e d) :
    SetAside e d base (graft s (stagingPath e d) u) :=
  ⟨h.1.graft ours_staging, (sub_graft_of_apart hfresh.apart_staging).trans h.2.1,
    (sub_graft_of_apart (apart_staging_backupOld e d)).trans h.2.2⟩

theorem Refused.graft_staging (h : Refused e url d base error s) (hfresh : Fresh e d) :
    Refused e url d base error (graft s (stagingPath e d) u) := by
  cases h with
  | unchanged h => exact .unchanged (h.graft hfresh.aside_staging)
  | backupLeft ht h => exact .backupLeft ht (h.graft hfresh.aside_staging)
  | backupRetained h => exact .backupRetained (h.graft_staging hfresh)

theorem Refused.safe (h : Refused e url d base error s) : Safe e url d base s := by
  cases h with
  | unchanged h => exact .inl h
  | backupLeft ht h => exact .inr (.inr ⟨_, ht, h⟩)
  | backupRetained h => exact .inr (.inl h)

theorem Waiting.safe (h : Waiting e d base hadOld s) : Safe e url d base s := by
  cases hadOld with
  | false => exact .inl h
  | true => exact .inr (.inl h)

end Graft

/-! ### Operations -/

section Operations

variable {I P Q : Tree → Prop} {pre : String} {o : Operation}

theorem keeps_quiet : Keeps P (quiet e o) := Keeps.perform (fun _ hs => hs) fun _ _ hs => hs

theorem renamed_eq_or (p q : Path) (s : Tree) :
    (∃ error, renamed p q s = (.error error, s)) ∨ renamed p q s = (.ok (), move s p q) := by
  unfold renamed
  split_ifs
  · exact .inl ⟨_, rfl⟩
  · exact .inl ⟨_, rfl⟩
  · exact .inl ⟨_, rfl⟩
  · exact .inr rfl

/-- A rename that fails changes nothing. -/
theorem meets_renamePath (hP : ∀ s, P s → I s) (hQ : ∀ s, P s → Q (move s p q))
    (hI : ∀ s, Q s → I s) : Meets I P (renamePath e p q) (fun _ => Q) fun _ => P := by
  have hrenamed (s : Tree) (hs : P s) :
      I (renamed p q s).2 ∧ Ends (fun _ => Q) (fun _ => P) (renamed p q s).1 (renamed p q s).2 := by
    rcases renamed_eq_or p q s with ⟨error, h⟩ | h
    · rw [h]
      exact ⟨hP s hs, hs⟩
    · rw [h]
      exact ⟨hI _ (hQ s hs), hQ s hs⟩
  exact Meets.perform (fun s hs => (hrenamed s hs).1) (fun s hs => (hrenamed s hs).2)
    fun _ _ s _ hs => ⟨hP s hs, hs⟩

theorem keeps_removeAllPath (h : ∀ s u, P s → P (graft s p u)) : Keeps P (removeAllPath e p) := by
  refine Keeps.perform (fun s hs => ?_) fun _ s hs => h s _ hs
  cases s p with
  | none => exact hs
  | some node =>
    cases node with
    | directory => exact h s _ hs
    | file _ => exact hs
    | special => exact hs

/-- Dropping a temporary directory does not fail. -/
theorem meets_dropTempDir {ε : Type} {E : ε → Tree → Prop} (hP : ∀ s, P s → I s)
    (h : ∀ s u, P s → P (graft s p u)) :
    Meets I P (dropTempDir e p : Prog Tree ε Unit) (fun _ => P) E :=
  ((keeps_removeAllPath h).meets_attempt.mono hP (fun _ => id) (fun _ _ => id)
    fun _ _ => id).bind fun _ => Meets.pure fun _ => id

/-- A temporary directory is new and empty. -/
theorem meets_tempdirIn (h : ∀ s u, P s → P (graft s (p ++ [tempName e pre]) u)) :
    Meets P P (tempdirIn e p pre)
      (fun path s => path = p ++ [tempName e pre] ∧ P s ∧ sub s path = leaf .directory)
      fun _ => P := by
  have hmade (s : Tree) (hs : P s) := h s (leaf .directory) hs
  refine Meets.perform (fun s hs => ?_) (fun s hs => ?_) fun _ _ s _ hs => ⟨hs, hs⟩
  · rcases s p with _ | ⟨_ | _ | _⟩ <;> rcases s (p ++ [tempName e pre]) with _ | _ <;>
      first | exact hs | exact hmade s hs
  · rcases s p with _ | ⟨_ | _ | _⟩ <;> rcases s (p ++ [tempName e pre]) with _ | _ <;>
      first | exact hs | exact ⟨rfl, hmade s hs, sub_graft _ _ _⟩

end Operations

/-! ### The replacement -/

section Replacement

variable {N : Tree} {hadOld : Bool}

/-- Nothing has happened to the destination yet, and the staging directory holds `N`. -/
def Staged (e : Environment) (d : Destination) (base N s : Tree) : Prop :=
  Unchanged e d base s ∧ sub s (stagingPath e d) = N

theorem Staged.graft_backup (h : Staged e d base N s) (hfresh : Fresh e d) :
    Staged e d base N (graft s (backupPath e d) u) :=
  ⟨h.1.graft hfresh.aside_backup,
    (sub_graft_of_apart (apart_staging_backup e d).symm).trans h.2⟩

/-- The old tree goes into the backup as a whole. -/
theorem Staged.setAside (h : Staged e d base N s) (hfresh : Fresh e d) :
    SetAside e d base (move s d.path (backupOld e d)) ∧
      sub (move s d.path (backupOld e d)) (stagingPath e d) = N := by
  refine ⟨⟨h.1.1.move ours_path ours_backupOld, sub_move_source hfresh.apart_backupOld, ?_⟩, ?_⟩
  · rw [sub_move_target, h.1.2]
  · rw [sub_move_of_apart hfresh.apart_staging.symm (apart_staging_backupOld e d).symm, h.2]

/-- The old tree comes back as a whole. -/
theorem SetAside.restored (h : SetAside e d base s) :
    Unchanged e d base (move s (backupOld e d) d.path) :=
  ⟨h.1.move ours_backupOld ours_path, (sub_move_target _ _ _).trans h.2.2⟩

theorem Waiting.frame (h : Waiting e d base hadOld s) : Frame e d base s := by
  cases hadOld with
  | false => exact h.1
  | true => exact h.1

/-- What is installed is what is in the staging directory, with or without an old tree. -/
theorem Waiting.installed (h : Waiting e d base hadOld s)
    (hN : sub s (stagingPath e d) = N) :
    Installed e d base N (move s (stagingPath e d) d.path) :=
  ⟨h.frame.move ours_staging ours_path, (sub_move_target _ _ _).trans hN⟩

theorem meets_orDrop {α : Type} {m : Prog Tree RegistryError α} {I P : Tree → Prop}
    {Q : α → Tree → Prop} (hfresh : Fresh e d)
    (hI : ∀ s, Unchanged e d base s → I s)
    (h : Meets I P m Q fun _ => Unchanged e d base) :
    Meets I P (orDrop e (backupPath e d) m) Q fun _ => Unchanged e d base := by
  refine Meets.bind (Meets.attempt h) fun r => ?_
  cases r with
  | ok a => exact Meets.pure fun _ => id
  | error error =>
    exact (meets_dropTempDir hI fun _ _ hs => hs.graft hfresh.aside_backup).bind fun _ =>
      Meets.fail fun _ => id

theorem meets_setAside (hfresh : Fresh e d) :
    Meets (Safe e url d base) (Staged e d base N) (setAside e d (backupPath e d))
      (fun hadOld s => Waiting e d base hadOld s ∧ sub s (stagingPath e d) = N)
      fun _ => Unchanged e d base := by
  have hsafe (s : Tree) (hs : Staged e d base N s) : Safe e url d base s := .inl hs.1
  refine meets_orDrop hfresh (fun _ => .inl) ?_
  refine Meets.bind (Q := fun _ => Staged e d base N)
    (Meets.mapError (keeps_quiet.mono hsafe (fun _ => id) (fun _ _ => id) fun _ _ => id)
      fun _ _ hs => hs.1) fun _ => ?_
  refine Meets.bind (Q := fun _ => Staged e d base N)
    (Meets.mapError (E := fun _ => Staged e d base N)
      (Meets.perform hsafe (fun _ hs => hs) fun _ _ s _ hs => ⟨hsafe s hs, hs⟩)
      fun _ _ hs => hs.1) fun hadOld => ?_
  cases hadOld with
  | false => exact Meets.pure fun _ => id
  | true =>
    have hrename : Meets (Safe e url d base) (Staged e d base N)
        (renamePath e d.path (backupOld e d))
        (fun _ s => SetAside e d base s ∧ sub s (stagingPath e d) = N)
        fun _ => Staged e d base N :=
      meets_renamePath hsafe (fun s hs => hs.setAside hfresh) fun _ hs => .inr (.inl hs.1)
    refine Meets.bind (Meets.mapError hrename fun _ _ hs => hs.1) fun _ => ?_
    exact Meets.pure fun _ hs => hs

/-- Without an old tree nothing was touched; with one, it comes back or stays in the backup. -/
theorem meets_rollback (hfresh : Fresh e d) (install : IoError) :
    Meets (Safe e url d base) (Waiting e d base hadOld)
      (rollback e d (backupPath e d) hadOld install) (fun _ _ => False)
      (Refused e url d base) := by
  have hkeeps (s : Tree) (u : Tree) (hs : Unchanged e d base s) :
      Unchanged e d base (graft s (backupPath e d) u) := hs.graft hfresh.aside_backup
  cases hadOld with
  | false =>
    exact (meets_dropTempDir (fun _ => .inl) hkeeps).bind fun _ => Meets.fail fun _ => .unchanged
  | true =>
    refine Meets.bind (Meets.attempt (meets_renamePath (fun _ hs => .inr (.inl hs))
      (fun _ hs => SetAside.restored hs) fun _ => .inl)) fun r => ?_
    cases r with
    -- the second rename back failed as well: the old tree stays where the message says
    | error source => exact Meets.fail fun _ => .backupRetained
    | ok _ =>
      have hremove : Keeps (Unchanged e d base) (removeAllPath e (backupPath e d)) :=
        keeps_removeAllPath hkeeps
      refine Meets.bind (hremove.meets_attempt.mono (fun _ => .inl) (fun _ => id) (fun _ _ => id)
        fun _ _ => id) fun r => ?_
      cases r with
      | error cleanup => exact Meets.fail fun _ => .unchanged
      | ok _ => exact Meets.fail fun _ => .unchanged

theorem meets_replaceDirectory (hfresh : Fresh e d) (hN : Accepted e url N) :
    Meets (Safe e url d base) (Staged e d base N) (replaceDirectory e d (stagingPath e d))
      (fun _ => Installed e d base N) (Refused e url d base) := by
  have hinstalled (s : Tree) (hs : Installed e d base N s) : Safe e url d base s :=
    .inr (.inr ⟨N, hN, hs⟩)
  have htemp : Meets (Staged e d base N) (Staged e d base N)
      (tempdirIn e d.parent ".registry-backup-") _ _ :=
    meets_tempdirIn fun _ _ hs => hs.graft_backup hfresh
  refine Meets.bind (Meets.mapError (htemp.mono (fun _ hs => .inl hs.1) (fun _ => id)
    (fun _ _ => id) fun _ _ => id) fun _ _ hs => .unchanged hs.1) fun container => ?_
  refine Meets.of_and ?_
  rintro rfl
  refine Meets.bind (((meets_setAside hfresh).pre fun _ hs => hs.1).post (fun _ _ => id)
    fun _ _ => .unchanged) fun hadOld => ?_
  -- between the two renames the destination is empty, and the old tree is in the backup
  refine Meets.bind (Meets.attempt (meets_renamePath (fun _ hs => hs.1.safe)
    (fun _ hs => hs.1.installed hs.2) hinstalled)) fun r => ?_
  cases r with
  | error install =>
    exact ((meets_rollback hfresh install).pre fun _ hs => hs.1).post (fun _ _ => False.elim)
      fun _ _ => id
  | ok _ =>
    have hremove : Keeps (Installed e d base N) (removeAllPath e (backupPath e d)) :=
      keeps_removeAllPath fun _ _ hs => hs.graft hfresh.aside_backup
    exact Meets.mapError (hremove.mono hinstalled (fun _ => id) (fun _ _ => id) fun _ _ => id)
      fun _ _ hs => .backupLeft hN hs

end Replacement

/-! ### The whole -/

/-- Extraction leaves everything alone but the staging directory. -/
theorem meets_extractArchive_staging (hfresh : Fresh e d) {archive : Archive} :
    Meets (Safe e url d base) (Staged e d base (leaf .directory))
      (extractArchive e (stagingPath e d) archive)
      (fun _ s => ∃ es : List Entry, archive.entries = .ok (es.map .ok) ∧
        Staged e d base (unpack es) s)
      fun _ => Unchanged e d base := by
  refine Meets.of_forall fun start hstart => ?_
  have hinside (s : Tree) (hs : Inside start (stagingPath e d) s) : Unchanged e d base s := by
    obtain ⟨t, rfl⟩ := hs
    exact hstart.1.graft hfresh.aside_staging
  have hextract : Meets (Inside start (stagingPath e d))
      (Grafted start (stagingPath e d) (leaf .directory))
      (extractArchive e (stagingPath e d) archive)
      (fun _ s => ∃ es : List Entry, archive.entries = .ok (es.map .ok) ∧
        Grafted start (stagingPath e d) (es.foldl place (leaf .directory)) s)
      fun _ => Inside start (stagingPath e d) := meets_extractArchive
  refine hextract.mono (fun s hs => .inl (hinside s hs)) ?_ ?_ fun _ => hinside
  · rintro s rfl
    rw [← hstart.2]
    exact (graft_sub s _).symm
  · rintro _ s ⟨es, hes, hs⟩
    exact ⟨es, hes, hinside s ⟨_, hs⟩, by rw [hs, sub_graft]; rfl⟩

theorem meets_loadFromDir {N : Tree} :
    Meets (Safe e url d base) (Staged e d base N) (loadFromDir e (stagingPath e d))
      (fun _ s => e.loadFromDir N = .ok () ∧ Staged e d base N s)
      fun _ => Unchanged e d base := by
  refine Meets.perform (fun _ hs => .inl hs.1) (fun s hs => ?_) fun _ _ _ _ hs => ⟨.inl hs.1, hs.1⟩
  rw [hs.2]
  cases h : e.loadFromDir N with
  | ok _ => exact ⟨rfl, hs⟩
  | error error => exact hs.1

theorem meets_syncStaged (hfresh : Fresh e d) :
    Meets (Safe e url d base) (Staged e d base (leaf .directory))
      (syncStaged e url d (stagingPath e d))
      (fun _ s => ∃ t, Accepted e url t ∧ Installed e d base t s) (Refused e url d base) := by
  have hsafe (s : Tree) (hs : Staged e d base (leaf .directory) s) : Safe e url d base s :=
    .inl hs.1
  have hquiet {o : Operation} : Meets (Safe e url d base) (Staged e d base (leaf .directory))
      (quiet e o) (fun _ => Staged e d base (leaf .directory))
      fun _ => Staged e d base (leaf .directory) :=
    keeps_quiet.mono hsafe (fun _ => id) (fun _ _ => id) fun _ _ => id
  have hrefused (error : RegistryError) (s : Tree)
      (hs : Staged e d base (leaf .directory) s) : Refused e url d base error s := .unchanged hs.1
  refine Meets.bind (Meets.mapError hquiet fun _ s => hrefused _ s) fun _ => ?_
  -- up to the archive nothing is written at all
  refine Meets.bind_ofExcept (fun error _ => hrefused error) fun response hresponse => ?_
  refine Meets.ite_fail (hrefused _) fun hstatus => ?_
  refine Meets.bind_ofExcept (fun error _ => hrefused error) fun compressed hcompressed => ?_
  refine Meets.bind (Meets.mapError hquiet fun _ s => hrefused _ s) fun _ => ?_
  -- from here on only the staging directory changes, until the loader has accepted it
  refine Meets.bind ((meets_extractArchive_staging hfresh).post (fun _ _ => id)
    fun _ _ => .unchanged) fun _ => ?_
  refine Meets.of_exists fun es => Meets.of_and fun hes => ?_
  refine Meets.bind (meets_loadFromDir.post (fun _ _ => id) fun _ _ => .unchanged) fun _ => ?_
  refine Meets.of_and fun hload => ?_
  have haccepted : Accepted e url (unpack es) :=
    ⟨response, compressed, es, hresponse, not_not.1 hstatus, hcompressed, hes, rfl, hload⟩
  exact (meets_replaceDirectory hfresh haccepted).post (fun _ s hs => ⟨_, haccepted, hs⟩)
    fun _ _ => id

theorem unchanged_refl (e : Environment) (d : Destination) (base : Tree) :
    Unchanged e d base base := ⟨fun _ _ => .inl rfl, rfl⟩

theorem unchanged_makeDirs {l : Path} (hl : l <+: d.parent) :
    Unchanged e d base (makeDirs base l) := ⟨frame_makeDirs hl, sub_makeDirs hl⟩

/-- Making the parent, halfway or not, does not reach the destination. -/
theorem meets_createDirAll :
    Meets (Unchanged e d base) (fun s => s = base) (createDirAll e d.parent)
      (fun _ => Unchanged e d base) fun _ => Unchanged e d base := by
  have hall : Unchanged e d base (makeDirs base d.parent) := unchanged_makeDirs (List.prefix_refl _)
  unfold createDirAll system
  refine Meets.perform ?_ ?_ ?_
  · rintro s rfl
    by_cases h : obstructed s d.parent
    · simp only [if_pos h]
      exact unchanged_refl e d s
    · simp only [if_neg h]
      exact hall
  · rintro s rfl
    by_cases h : obstructed s d.parent
    · simp only [if_pos h]
      exact unchanged_refl e d s
    · simp only [if_neg h]
      exact hall
  -- a fault leaves the first directories of the parent
  · rintro n fault s - rfl
    have htake : Unchanged e d s (makeDirs s (d.parent.take fault.written)) :=
      unchanged_makeDirs (List.take_prefix fault.written d.parent)
    exact ⟨htake, htake⟩

/-- Registry synchronisation is all or nothing.  At every moment the destination holds its old tree
or a complete new one that was loaded, or it is empty and the old tree is in the backup (`Safe`).
Without an error it ends with the new tree; with one it ends as `Refused` says.  Extraction writes
inside the staging directory only. -/
theorem syncWithTransport_all_or_nothing (e : Environment) (url : String) (d : Destination)
    (base : Tree) (hfresh : Fresh e d) :
    Meets (Safe e url d base) (fun s => s = base) (syncWithTransport e url d)
        (fun _ s => ∃ t, Accepted e url t ∧ Installed e d base t s) (Refused e url d base) ∧
      ∀ archive start,
        Meets (fun s => ∀ l, ¬ stagingPath e d <+: l → s l = start l) (fun s => s = start)
          (extractArchive e (stagingPath e d) archive) (fun _ _ => True) fun _ _ => True := by
  constructor
  · have hunchanged (s : Tree) (hs : s = base) (error : RegistryError) :
        Refused e url d base error s := .unchanged (hs ▸ unchanged_refl e d base)
    refine Meets.bind_ofExcept (fun error _ s hs => hunchanged s hs error) fun _ _ => ?_
    refine Meets.bind (Meets.mapError (meets_createDirAll.mono (fun _ => .inl) (fun _ => id)
      (fun _ _ => id) fun _ _ => id) fun _ _ => .unchanged) fun _ => ?_
    have htemp : Meets (Unchanged e d base) (Unchanged e d base)
        (tempdirIn e d.parent ".registry-sync-") _ _ :=
      meets_tempdirIn fun _ _ hs => hs.graft hfresh.aside_staging
    refine Meets.bind (Meets.mapError (htemp.mono (fun _ => .inl) (fun _ => id) (fun _ _ => id)
      fun _ _ => id) fun _ _ => .unchanged) fun staging => ?_
    refine Meets.of_and ?_
    rintro rfl
    refine Meets.bind (Meets.attempt (meets_syncStaged hfresh)) fun outcome => ?_
    -- removing the staging directory changes neither end
    refine (meets_dropTempDir (fun s hs => ?_) fun s u hs => ?_).bind fun _ =>
      Meets.ofExcept fun _ => id
    · cases outcome with
      | ok _ => exact .inr (.inr hs)
      | error error => exact Refused.safe hs
    · cases outcome with
      | ok _ =>
        obtain ⟨t, ht, hs⟩ := hs
        exact ⟨t, ht, hs.graft hfresh.aside_staging⟩
      | error error => exact Refused.graft_staging hs hfresh
  · intro archive start
    have hextract : Meets (Inside start (stagingPath e d))
        (Grafted start (stagingPath e d) (sub start (stagingPath e d)))
        (extractArchive e (stagingPath e d) archive)
        (fun _ s => ∃ es : List Entry, archive.entries = .ok (es.map .ok) ∧
          Grafted start (stagingPath e d) (es.foldl place (sub start (stagingPath e d))) s)
        fun _ => Inside start (stagingPath e d) := meets_extractArchive
    refine hextract.mono (fun s hs l => hs.apply) ?_ (fun _ _ _ => trivial) fun _ _ _ => trivial
    rintro s rfl
    exact (graft_sub s _).symm

/-- An archive with one broker, and no faults. -/
def oneBroker : Environment where
  faults _ _ := none
  parseUri _ := some ⟨some "https", some ⟨"example.test", "example.test", false⟩⟩
  transport _ _ := .ok ⟨200, fun n => .ok (if n = 0 then [0x1F, 0x8B] else [])⟩
  archive _ := {
    entries := .ok [.ok ⟨osString "brokers", .directory, 0, [], none⟩,
      .ok ⟨osString "brokers/acme.yaml", .file, 2, [0x69, 0x64], none⟩]
    padding := []
    trailing := .ok [] }
  loadFromDir _ := .ok ()
  random _ := osString "Xy7"

def srvRegistry : Destination := ⟨[osString "srv"], osString "registry"⟩

/-- A registry with one file. -/
def oldRegistry : Tree := fun l =>
  if l = [osString "srv"] ∨ l = [osString "srv", osString "registry"] then some .directory
  else if l = [osString "srv", osString "registry", osString "old"] then some (.file [0x31])
  else none

theorem syncWithTransport_all_or_nothing_oneBroker :
    let r := syncWithTransport oneBroker "https://example.test/registry.tar.gz" srvRegistry
      ⟨oldRegistry, 0, []⟩
    r.1 = .ok () ∧ ∃ t, Accepted oneBroker "https://example.test/registry.tar.gz" t ∧
      Installed oneBroker srvRegistry oldRegistry t r.2.state := by
  have hok : (syncWithTransport oneBroker "https://example.test/registry.tar.gz" srvRegistry
      ⟨oldRegistry, 0, []⟩).1 = .ok () := by
    decide +kernel
  have hends := ((syncWithTransport_all_or_nothing oneBroker "https://example.test/registry.tar.gz"
    srvRegistry oldRegistry ⟨by decide, by decide⟩).1 ⟨oldRegistry, 0, []⟩ rfl).2
  rw [hok] at hends
  exact ⟨hok, hends⟩

end EraseMe.Registry.Sync
