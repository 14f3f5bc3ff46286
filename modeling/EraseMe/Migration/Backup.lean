import EraseMe.Migration.Mutate

/-!
# The backup of a migration

A file is written beside its place and renamed, so that its place holds the old file or the whole new
one (`meets_writeAtomic`).  A tree is copied with everything in it, or the copy ends with an error
(`meets_copyTree`); what is read is not what is written.
-/

namespace EraseMe.Migration

open Faulty Faulty.Prog FileTree
open Json (Octets)

variable {e : Environment}

/-! ### Operations -/

section Operations

variable {α : Type} {I P : Progress → Prop} {Q : α → Progress → Prop}
  {E : Failure → Progress → Prop} {o : Operation} {answer : Files → Except Failure α}

theorem meets_system {effect : Files → Except Failure α × Files}
    {halfway : Failing → Files → Files}
    (heffect : ∀ s, P s → I { s with files := (effect s.files).2 } ∧
      Faulty.Ends Q E (effect s.files).1 { s with files := (effect s.files).2 })
    (hfault : ∀ s n fault, P s → e.faults n o = some fault →
      I { s with files := halfway fault s.files } ∧
        E (.other fault.message) { s with files := halfway fault s.files }) :
    Meets I P (system e o effect halfway) Q E :=
  Meets.perform (fun s hs => (heffect s hs).1) (fun s hs => (heffect s hs).2)
    fun n fault s h hs => hfault s n fault hs h

/-- A question changes nothing; a fault is never taken for a missing file. -/
theorem meets_asks (hI : ∀ s, P s → I s) (hok : ∀ s a, P s → answer s.files = .ok a → Q a s)
    (herror : ∀ s failure, P s →
      (answer s.files = .error failure ∨ failure ≠ .notFound ∧ ∃ n, e.faults n o ≠ none) →
        E failure s) :
    Meets I P (asks e o answer) Q E := by
  refine meets_system (fun s hs => ⟨hI s hs, ?_⟩) fun s n fault hs hfault => ⟨hI s hs, ?_⟩
  · show Faulty.Ends Q E (answer s.files) s
    cases h : answer s.files with
    | ok a => exact hok s a hs h
    | error failure => exact herror s failure hs (.inl h)
  · exact herror s _ hs (.inr ⟨by simp, n, by simp [hfault]⟩)

/-- A question about the files asks nothing else. -/
theorem keeps_asks : Keeps P (asks e o answer) :=
  meets_asks (fun _ => id) (fun _ _ hs _ => hs) fun _ _ hs _ => hs

theorem keeps_rejectFrom (path : Path) (components : List Name) :
    Keeps P (rejectFrom e path components) := by
  induction components generalizing path with
  | nil => exact Keeps.pure
  | cons component rest ih =>
    refine Keeps.bind (Keeps.attempt keeps_asks) fun r => ?_
    rcases r with failure | node
    · cases failure with
      | notFound => exact Keeps.pure
      | other text => exact Keeps.fail
    · cases node with
      | special => exact Keeps.fail
      | file _ => exact ih _
      | directory => exact ih _

/-- A path that is not found has nothing, and so has one whose answer cannot be a fault. -/
theorem meets_symlinkMetadata {path : Path} (hI : ∀ s, P s → I s) :
    Meets I P (symlinkMetadata e path) (fun node s => s.files path = some node ∧ P s)
      fun failure s => (failure = .notFound ∨ (∀ n, e.faults n (.metadata path) = none) →
        s.files path = none) ∧ P s := by
  refine meets_asks hI (fun s node hs h => ⟨?_, hs⟩) fun s failure hs h => ⟨fun hmissing => ?_, hs⟩
  · cases hnode : s.files path with
    | none =>
      rw [hnode] at h
      cases h
    | some _ =>
      rw [hnode] at h
      cases h
      rfl
  · rcases h with h | ⟨hne, n, hn⟩
    · cases hnode : s.files path with
      | none => rfl
      | some _ =>
        rw [hnode] at h
        cases h
    · rcases hmissing with heq | hnever
      · exact absurd heq hne
      · exact absurd (hnever n) hn

/-- What is not there was not found, unless looking for it may fail. -/
theorem meets_isThere {ε : Type} {E : ε → Progress → Prop} {path : Path} (hI : ∀ s, P s → I s) :
    Meets I P (isThere e path)
      (fun there s => P s ∧
        (there = false → (∀ n, e.faults n (.metadata path) = none) → s.files path = none)) E := by
  refine Meets.bind (Meets.attempt (meets_symlinkMetadata hI)) fun r => Meets.pure fun s hs => ?_
  cases r with
  | ok node => exact ⟨hs.2, fun h => by cases h⟩
  | error failure => exact ⟨hs.2, fun _ hnever => hs.1 (.inr hnever)⟩

/-- Looking at a path in files that stay: what is there, or that nothing is. -/
theorem meets_attempt_symlinkMetadata {ε : Type} {E : ε → Progress → Prop} {t : Files}
    (path : Path) (hI : ∀ s : Progress, s.files = t → I s) :
    Meets I (fun s => s.files = t) (attempt (symlinkMetadata e path))
      (fun found s => ((∀ node, found = .ok node → t path = some node) ∧
        (found = .error .notFound → t path = none)) ∧ s.files = t) E := by
  refine (Meets.attempt (meets_symlinkMetadata hI)).post (fun found s hs => ?_) fun _ _ => id
  cases found with
  | ok node =>
    exact ⟨⟨fun _ h => Except.ok.inj h ▸ hs.2 ▸ hs.1, fun h => by cases h⟩, hs.2⟩
  | error failure =>
    exact ⟨⟨fun _ h => absurd h (by simp), fun h => hs.2 ▸ hs.1 (.inl (Except.error.inj h))⟩, hs.2⟩

/-- What is read is what the file holds. -/
theorem meets_read {path : Path} (hI : ∀ s, P s → I s) :
    Meets I P (read e path) (fun data s => s.files path = some (.file data) ∧ P s) fun _ => P := by
  refine meets_asks hI (fun s data hs h => ⟨?_, hs⟩) fun _ _ hs _ => hs
  rcases hnode : s.files path with _ | ⟨_ | _ | _⟩ <;> rw [hnode] at h <;> cases h
  rfl

theorem meets_readDir {path : Path} (hI : ∀ s, P s → I s) :
    Meets I P (readDir e path)
      (fun entries s => (s.files path = some .directory ∧ e.listing s.files path = entries) ∧ P s)
      fun _ => P := by
  refine meets_asks hI (fun s entries hs h => ⟨?_, hs⟩) fun _ _ hs _ => hs
  rcases hnode : s.files path with _ | ⟨_ | _ | _⟩ <;> rw [hnode] at h <;> cases h
  exact ⟨rfl, rfl⟩

end Operations

/-! ### A file that is written as a whole -/

/-- Only directories on the way and a temporary file are new. -/
def Beside (e : Environment) (path : Path) (t s : Files) : Prop :=
  Grows (fun l node => l <+: path.dropLast ∧ node = .directory ∨
    l = temporary e path.dropLast ∧ ∃ data, node = .file data) t s

/-- The files with one written. -/
def written (t : Files) (path : Path) (data : Octets) : Files :=
  put (makeDirs t path.dropLast) path (.file data)

section WriteAtomic

variable {I : Progress → Prop} {t s : Files} {path : Path} {data : Octets}

theorem beside_makeDirs (t : Files) {way : Path} (h : way <+: path.dropLast) :
    Beside e path t (makeDirs t way) :=
  (grows_makeDirs t way).mono fun _ _ hl => .inl ⟨hl.1.trans h, hl.2⟩

theorem beside_temporary (h : makeDirs t path.dropLast (temporary e path.dropLast) = none)
    (data : Octets) :
    Beside e path t (put (makeDirs t path.dropLast) (temporary e path.dropLast) (.file data)) := by
  refine (beside_makeDirs t (List.prefix_refl _)).put ?_ (.inr ⟨rfl, data, rfl⟩)
  by_contra hne
  rw [(grows_makeDirs t _).apply hne] at h
  exact hne h

/-- Directories are made on the way only, all of them if nothing fails. -/
theorem meets_mkdir (t : Files) (path : Path)
    (hI : ∀ s : Progress, Grows (fun l node => l <+: path ∧ node = .directory) t s.files → I s) :
    Meets I (fun s => s.files = t) (mkdir e path)
      (fun _ s => obstructed t path = false ∧ s.files = makeDirs t path)
      fun _ s => Grows (fun l node => l <+: path ∧ node = .directory) t s.files := by
  refine Meets.mapError (E := fun _ s =>
    Grows (fun l node => l <+: path ∧ node = .directory) t s.files) ?_ fun _ _ h => h
  refine meets_system ?_ ?_
  · rintro s rfl
    by_cases h : obstructed s.files path
    · rw [if_pos h]
      exact ⟨hI _ (Grows.refl _ _), Grows.refl _ _⟩
    · rw [if_neg h]
      exact ⟨hI _ (grows_makeDirs s.files path), by simpa using h, rfl⟩
  -- a fault leaves the first directories of the way
  · rintro s n fault rfl -
    have hhalfway : Grows (fun l node => l <+: path ∧ node = .directory) s.files
        (if obstructed s.files path then s.files
          else makeDirs s.files (path.take fault.written)) := by
      split_ifs
      · exact Grows.refl _ _
      · exact (grows_makeDirs _ _).mono fun _ _ hl =>
          ⟨hl.1.trans (List.take_prefix _ _), hl.2⟩
    exact ⟨hI _ hhalfway, hhalfway⟩

/-- The file is new, with nothing in it. -/
theorem meets_tempfileIn {parent : Path} (hI : ∀ s : Progress, s.files = t → I s)
    (hnew : ∀ s : Progress, t (temporary e parent) = none →
      s.files = put t (temporary e parent) (.file []) → I s) :
    Meets I (fun s => s.files = t) (tempfileIn e parent)
      (fun _ s => t (temporary e parent) = none ∧
        s.files = put t (temporary e parent) (.file []))
      fun _ s => s.files = t := by
  refine meets_system ?_ fun s _ _ hs _ => ⟨hI _ hs, hs⟩
  rintro s rfl
  rcases hparent : s.files parent with _ | ⟨_ | _ | _⟩
  · exact ⟨hI _ rfl, rfl⟩
  · exact ⟨hI _ rfl, rfl⟩
  · rcases htemp : s.files (temporary e parent) with _ | _
    · exact ⟨hnew _ htemp rfl, rfl, rfl⟩
    · exact ⟨hI _ rfl, rfl⟩
  · exact ⟨hI _ rfl, rfl⟩

theorem erase_put {u : Files} {temp : Path} {node : Node} (h : u temp = none) :
    erase (put u temp node) temp = u := by
  funext l
  by_cases hl : l = temp
  · subst hl
    simp [erase, h]
  · simp [erase, put, hl]

/-- The rename takes the temporary file away and puts the whole new file in its place. -/
theorem meets_persist {u : Files} {temp target : Path} (htemp : u temp = none)
    (hI : ∀ s : Progress, s.files = put u temp (.file data) → I s)
    (hdone : ∀ s : Progress, s.files = put u target (.file data) → I s) :
    Meets I (fun s => s.files = put u temp (.file data)) (persist e temp target)
      (fun _ s => s.files = put u target (.file data))
      fun _ s => s.files = put u temp (.file data) := by
  have hrenamed : renamed temp target (put u temp (.file data)) =
        (.error isADirectory, put u temp (.file data)) ∨
      renamed temp target (put u temp (.file data)) =
        (.ok (), put u target (.file data)) := by
    unfold renamed
    by_cases h : put u temp (.file data) target = some .directory
    · exact .inl (if_pos h)
    · refine .inr ((if_neg h).trans ?_)
      have hsource : put u temp (.file data) temp = some (.file data) := if_pos rfl
      rw [hsource]
      simp only [erase_put htemp]
  refine meets_system ?_ fun s _ _ hs _ => ⟨hI _ hs, hs⟩
  intro s hs
  rcases hrenamed with h | h
  · rw [hs, h]
    exact ⟨hI _ rfl, rfl⟩
  · rw [hs, h]
    exact ⟨hdone _ rfl, rfl⟩

/-- At every moment the place holds what it held or the whole new file. -/
theorem meets_writeAtomic (t : Files) (path : Path) (data : Octets)
    (hbeside : ∀ s : Progress, Beside e path t s.files → I s)
    (hwritten : ∀ s : Progress, s.files = written t path data → I s) :
    Meets I (fun s => s.files = t) (writeAtomic e path data)
      (fun _ s => s.files = written t path data) fun _ s => Beside e path t s.files := by
  have hrefl : Beside e path t t := Grows.refl _ _
  have hstart (s : Progress) (hs : s.files = t) : Beside e path t s.files := hs ▸ hrefl
  refine Meets.bind (Q := fun _ s => s.files = t) (Meets.mapError
    ((keeps_rejectFrom [] path).mono (fun s hs => hbeside s (hstart s hs)) (fun _ => id)
      (fun _ _ => id) fun _ => hstart) fun _ _ => id) fun _ => ?_
  refine Meets.ite_fail hstart fun hpath => ?_
  have hparent (s : Files) (h : Grows (fun l node => l <+: path.dropLast ∧ node = .directory) t s) :
      Beside e path t s := h.mono fun _ _ => .inl
  refine Meets.bind ((meets_mkdir t _ fun s hs => hbeside s (hparent _ hs)).post (fun _ _ hs => hs.2)
    fun _ _ => hparent _) fun _ => ?_
  have hmade (s : Progress) (hs : s.files = makeDirs t path.dropLast) : Beside e path t s.files :=
    hs ▸ beside_makeDirs t (List.prefix_refl _)
  refine Meets.bind (Meets.mapError (meets_tempfileIn (fun s hs => hbeside s (hmade s hs))
    fun s hnone hs => hbeside s (hs ▸ beside_temporary hnone [])) fun _ => hmade) fun _ => ?_
  refine Meets.of_and fun hnone => ?_
  -- the temporary file exists, as far as it is written
  let half (s : Progress) : Prop := ∃ bytes, s.files =
    put (makeDirs t path.dropLast) (temporary e path.dropLast) (.file bytes)
  have hhalf (s : Progress) (hs : half s) : Beside e path t s.files := by
    obtain ⟨bytes, hs⟩ := hs
    exact hs ▸ beside_temporary hnone bytes
  have hI (s : Progress) (hs : half s) : I s := hbeside s (hhalf s hs)
  have hwrite : Meets I half (writeAll e (temporary e path.dropLast) data)
      (fun _ s => s.files =
        put (makeDirs t path.dropLast) (temporary e path.dropLast) (.file data))
      fun _ => half := by
    have hput (s : Progress) (d : Octets) (hs : half s) :
        put s.files (temporary e path.dropLast) (.file d) =
          put (makeDirs t path.dropLast) (temporary e path.dropLast) (.file d) := by
      obtain ⟨bytes, hs⟩ := hs
      rw [hs, put_put]
    refine meets_system (fun s hs => ⟨hI _ ⟨data, hput s data hs⟩, hput s data hs⟩) ?_
    intro s n fault hs _
    have hcut := hput s (data.take fault.written) hs
    exact ⟨hI _ ⟨_, hcut⟩, _, hcut⟩
  refine Meets.bind (Meets.attempt (Q := fun _ s => s.files = written t path data)
    (E := fun _ => half) ?_) fun r => ?_
  · refine Meets.bind (Q := fun _ => half) (Meets.mapError (E := fun _ => half)
      (keeps_asks.mono hI (fun s hs => ⟨[], hs⟩) (fun _ _ => id) fun _ _ => id)
      fun _ _ => id) fun _ => ?_
    refine Meets.bind (Meets.mapError hwrite fun _ _ => id) fun _ => ?_
    refine Meets.bind (Q := fun _ s => s.files =
      put (makeDirs t path.dropLast) (temporary e path.dropLast) (.file data))
      (Meets.mapError (keeps_asks.mono (fun s hs => hI s ⟨data, hs⟩) (fun _ => id)
        (fun _ _ => id) fun _ _ => id) fun _ s hs => ⟨data, hs⟩) fun _ => ?_
    exact Meets.mapError (meets_persist hnone (fun s hs => hI s ⟨data, hs⟩) hwritten)
      fun _ s hs => ⟨data, hs⟩
  · cases r with
    | ok _ => exact Meets.pure fun _ => id
    | error error =>
      refine Meets.bind (Q := fun _ s => Beside e path t s.files) ?_ fun _ =>
        Meets.fail fun _ => id
      have hremoved (s : Progress) (hs : half s) :
          Beside e path t (erase s.files (temporary e path.dropLast)) := by
        obtain ⟨bytes, hs⟩ := hs
        rw [hs, erase_put hnone]
        exact beside_makeDirs t (List.prefix_refl _)
      have hremove : Meets I half (remove e (temporary e path.dropLast))
          (fun _ s => Beside e path t s.files) fun _ s => Beside e path t s.files := by
        refine meets_system ?_ fun s _ _ hs _ => ⟨hI s hs, hhalf s hs⟩
        intro s hs
        rcases hnode : s.files (temporary e path.dropLast) with _ | ⟨_ | _ | _⟩
        · exact ⟨hI s hs, hhalf s hs⟩
        · exact ⟨hbeside _ (hremoved s hs), hremoved s hs⟩
        · exact ⟨hI s hs, hhalf s hs⟩
        · exact ⟨hbeside _ (hremoved s hs), hremoved s hs⟩
      refine (Meets.attempt hremove).post (fun r s hs => ?_) fun _ _ => id
      cases r with
      | ok _ => exact hs
      | error _ => exact hs

end WriteAtomic

/-! ### What a copy may change -/

/-- Outside of `root` only directories on the way to it are new. -/
def Within (root : Path) (t s : Files) : Prop :=
  ∀ l, ¬ root <+: l → s l = t l ∨ t l = none ∧ l <+: root ∧ s l = some .directory

/-- Below `root` nothing lies in anything but a directory. -/
def Grounded (t : Files) (root : Path) : Prop :=
  ∀ p n, t (root ++ p ++ [n]) ≠ none → t (root ++ p) = some .directory

/-- Listings of the directories below `root` name everything in them. -/
def Lists (e : Environment) (t : Files) (root : Path) : Prop :=
  ∀ s : Files, (∀ l, s (root ++ l) = t (root ++ l)) →
    ∀ p n, t (root ++ p ++ [n]) ≠ none → n ∈ e.listing s (root ++ p)

section Within

variable {root source : Path} {t s u : Files} {N : Path → Node → Prop}

theorem Within.refl (root : Path) (t : Files) : Within root t t := fun _ _ => .inl rfl

theorem Within.grows (h : Within root t s) (hgrows : Grows N s u)
    (hN : ∀ l node, N l node → root <+: l ∨ l <+: root ∧ node = .directory) :
    Within root t u := by
  intro l hl
  rcases hgrows l with hu | ⟨hnone, node, hu, hnode⟩
  · rw [hu]
    exact h l hl
  · rcases hN l node hnode with hroot | ⟨hway, rfl⟩
    · exact absurd hroot hl
    · rcases h l hl with hs | ⟨-, -, hs⟩
      · exact .inr ⟨hs ▸ hnone, hway, hu⟩
      · rw [hnone] at hs
        cases hs

theorem Within.put {p : Path} (h : Within root t s) (hp : root <+: p) (node : Node) :
    Within root t (put s p node) := by
  intro l hl
  rw [put_of_ne (by rintro rfl; exact hl hp)]
  exact h l hl

theorem Within.trans {sub : Path} (h : Within root t s) (hsub : root <+: sub)
    (h' : Within sub s u) : Within root t u := by
  intro l hl
  rcases h' l fun hl' => hl (hsub.trans hl') with hu | ⟨hnone, hway, hu⟩
  · rw [hu]
    exact h l hl
  · rcases h l hl with hs | ⟨-, -, hs⟩
    · refine .inr ⟨hs ▸ hnone, ?_, hu⟩
      exact (List.prefix_or_prefix_of_prefix hway hsub).resolve_right hl
    · rw [hnone] at hs
      cases hs

/-- What is apart from the root is as it was. -/
theorem Within.apart (h : Within root t s) (hapart : Apart source root) (l : Path) :
    s (source ++ l) = t (source ++ l) := by
  rcases h (source ++ l) (hapart.symm.not_under l) with h | ⟨-, hway, -⟩
  · exact h
  · exact absurd ((List.prefix_append source l).trans hway) hapart.1

end Within

/-! ### Trees that are copied -/

/-- Below `root` only has changed, and what stood in the source at the places `S` is there. -/
structure Copying (t : Files) (source root : Path) (S : Path → Prop) (s : Files) : Prop where
  within : Within root t s
  copied : ∀ l, S l → ∀ node, t (source ++ l) = some node → s (root ++ l) = some node

section CopyTree

variable {t s u : Files} {source root k : Path} {S S' : Path → Prop} {N : Path → Node → Prop}
  {data : Octets}

theorem Copying.mono (h : Copying t source root S s) (hS : ∀ l, S' l → S l) :
    Copying t source root S' s :=
  ⟨h.within, fun l hl => h.copied l (hS l hl)⟩

theorem Copying.grows (h : Copying t source root S s) (hgrows : Grows N s u)
    (hN : ∀ l node, N l node → root <+: l ∨ l <+: root ∧ node = .directory) :
    Copying t source root S u := by
  refine ⟨h.within.grows hgrows hN, fun l hl node hnode => ?_⟩
  have hs := h.copied l hl node hnode
  rw [hgrows.apply (by simp [hs]), hs]

/-- A way below the root. -/
theorem on_way {l : Path} (hl : l <+: root ++ k) : root <+: l ∨ l <+: root :=
  (List.prefix_or_prefix_of_prefix hl (List.prefix_append root k)).symm

theorem Copying.grows_way (h : Copying t source root S s)
    (hgrows : Grows (fun l node => l <+: root ++ k ∧ node = .directory) s u) :
    Copying t source root S u :=
  h.grows hgrows fun _ _ hl => (on_way hl.1).imp_right fun hway => ⟨hway, hl.2⟩

theorem Copying.beside {n : Name} (h : Copying t source root S s)
    (hbeside : Beside e (root ++ (k ++ [n])) s u) : Copying t source root S u := by
  have hparent : (root ++ (k ++ [n])).dropLast = root ++ k := by
    rw [← List.append_assoc, List.dropLast_concat]
  refine h.grows hbeside fun l node hl => ?_
  rw [hparent] at hl
  rcases hl with ⟨hway, hnode⟩ | ⟨rfl, -⟩
  · exact (on_way hway).imp_right fun hway => ⟨hway, hnode⟩
  · exact .inl ((List.prefix_append root k).trans (List.prefix_append _ _))

/-- A file that is in its place. -/
theorem Copying.written {n : Name} (h : Copying t source root S s)
    (hdata : t (source ++ (k ++ [n])) = some (.file data)) :
    Copying t source root (fun l => S l ∨ l = k ++ [n]) (written s (root ++ (k ++ [n])) data) := by
  have hparent : (root ++ (k ++ [n])).dropLast = root ++ k := by
    rw [← List.append_assoc, List.dropLast_concat]
  have hmade : Copying t source root S (makeDirs s (root ++ k)) :=
    h.grows_way (grows_makeDirs s (root ++ k))
  unfold Migration.written
  rw [hparent]
  refine ⟨hmade.within.put (List.prefix_append root _) _, fun l hl node hnode => ?_⟩
  by_cases heq : l = k ++ [n]
  · subst heq
    rw [hdata] at hnode
    cases hnode
    exact if_pos rfl
  · rw [put_of_ne (by simpa using heq)]
    exact hmade.copied l (hl.resolve_right heq) node hnode

/-- Nothing lies below a file. -/
theorem Grounded.not_below_file (h : Grounded t source) (hfile : t (source ++ k) = some (.file data))
    {l : Path} (hl : l ≠ []) : t (source ++ (k ++ l)) = none := by
  induction l using List.reverseRecOn with
  | nil => exact absurd rfl hl
  | append_singleton l n ih =>
    by_contra hne
    have hdir := h (k ++ l) n (by simpa using hne)
    by_cases hnil : l = []
    · subst hnil
      rw [List.append_nil, hfile] at hdir
      cases hdir
    · rw [ih hnil] at hdir
      cases hdir

/-- What is above something is there. -/
theorem Grounded.above (h : Grounded t source) {l : Path} (hl : t (source ++ (k ++ l)) ≠ none) :
    t (source ++ k) ≠ none := by
  induction l using List.reverseRecOn with
  | nil => simpa using hl
  | append_singleton l n ih =>
    exact ih (by simp [h (k ++ l) n (by simpa using hl)])

variable (hapart : Apart source root) (hgrounded : Grounded t source) (hlists : Lists e t source)

include hapart hgrounded in
/-- An entry that is a file. -/
theorem meets_copyOne {n : Name} :
    Meets (fun s => Copying t source root S s.files) (fun s => Copying t source root S s.files)
      (copyOne e (source ++ (k ++ [n])) (root ++ (k ++ [n])))
      (fun _ s => Copying t source root (fun l => S l ∨ k ++ [n] <+: l) s.files)
      fun _ s => Copying t source root S s.files := by
  refine Meets.bind (Meets.mapError (keeps_rejectFrom [] _) fun _ _ => id) fun _ => ?_
  refine Meets.bind (Meets.mapError keeps_asks fun _ _ => id) fun node => ?_
  rcases node with _ | _ | _
  · refine Meets.bind (Q := fun data s => t (source ++ (k ++ [n])) = some (.file data) ∧
      Copying t source root S s.files) (Meets.mapError ((meets_read fun _ => id).post
        (fun data s hs => ⟨?_, hs.2⟩) fun _ _ => id) fun _ _ => id) fun data => ?_
    · rw [← hs.2.within.apart hapart]
      exact hs.1
    · refine Meets.of_and fun hdata => Meets.of_forall fun s hs => ?_
      have hwritten : Copying t source root (fun l => S l ∨ k ++ [n] <+: l)
          (written s.files (root ++ (k ++ [n])) data) := by
        have hput := hs.written hdata
        refine ⟨hput.within, fun l hl node hnode => ?_⟩
        rcases hl with hl | ⟨l, rfl⟩
        · exact hput.copied l (.inl hl) node hnode
        · by_cases hnil : l = []
          · subst hnil
            exact hput.copied _ (.inr (by simp)) node hnode
          · rw [hgrounded.not_below_file hdata hnil] at hnode
            cases hnode
      refine (meets_writeAtomic s.files _ data (fun _ h => hs.beside h) fun u h => ?_).mono
        (fun _ => id) (fun u h => by rw [h]) (fun _ u h => h ▸ hwritten) fun _ _ h => hs.beside h
      rw [h]
      exact hwritten.mono fun _ => .inl
  · exact Meets.fail fun _ => id
  · exact Meets.fail fun _ => id

/-- What a recursive copy does. -/
def Copies (t : Files) (source root : Path)
    (tree : Path → Path → Prog Progress String Unit) : Prop :=
  ∀ k S, Meets (fun s => Copying t source root S s.files) (fun s => Copying t source root S s.files)
    (tree (source ++ k) (root ++ k))
    (fun _ s => Copying t source root (fun l => S l ∨ k <+: l) s.files)
    fun _ s => Copying t source root S s.files

include hapart hgrounded in
theorem meets_copyEntries {tree : Path → Path → Prog Progress String Unit}
    (htree : Copies t source root tree) (entries : List Name) (S : Path → Prop) :
    Meets (fun s => Copying t source root S s.files) (fun s => Copying t source root S s.files)
      (copyEntries e tree (source ++ k) (root ++ k) entries)
      (fun _ s => Copying t source root (fun l => S l ∨ ∃ n ∈ entries, k ++ [n] <+: l) s.files)
      fun _ s => Copying t source root S s.files := by
  induction entries generalizing S with
  | nil => exact Meets.pure fun s hs => hs.mono fun l hl => hl.resolve_right (by simp)
  | cons n entries ih =>
    have hrest : Meets (fun s => Copying t source root S s.files)
        (fun s => Copying t source root (fun l => S l ∨ k ++ [n] <+: l) s.files)
        (copyEntries e tree (source ++ k) (root ++ k) entries)
        (fun _ s => Copying t source root (fun l => S l ∨ ∃ m ∈ n :: entries, k ++ [m] <+: l)
          s.files)
        fun _ s => Copying t source root S s.files := by
      refine (ih fun l => S l ∨ k ++ [n] <+: l).mono (fun s hs => hs.mono fun _ => .inl)
        (fun _ => id) (fun _ s hs => hs.mono fun l hl => ?_) fun _ s hs => hs.mono fun _ => .inl
      rcases hl with hl | ⟨m, hm, hl⟩
      · exact .inl (.inl hl)
      · rcases List.mem_cons.1 hm with rfl | hm
        · exact .inl (.inr hl)
        · exact .inr ⟨m, hm, hl⟩
    show Meets _ _ (mapError _ (symlinkMetadata e (source ++ k ++ [n])) >>= _) _ _
    refine Meets.bind (Meets.mapError keeps_asks fun _ _ => id) fun node => ?_
    rw [List.append_assoc, List.append_assoc]
    cases node with
    | special => exact Meets.fail fun _ => id
    | directory => exact (htree (k ++ [n]) S).bind fun _ => hrest
    | file _ => exact (meets_copyOne hapart hgrounded).bind fun _ => hrest

theorem not_obstructed (h : obstructed s k = false) (hk : k ≠ []) :
    makeDirs s k k = some .directory := by
  have hne : makeDirs s k k ≠ none := makeDirsFrom_ne_none s [] hk
  have hself : s k = none ∨ s k = some .directory := by
    simp only [obstructed, List.any_eq_false, decide_eq_true_eq, not_and, not_not] at h
    have hk := h k (by simp)
    by_cases hnone : s k = none
    · exact .inl hnone
    · exact .inr (hk hnone)
  rcases makeDirsFrom_eq_or s [] k k with heq | ⟨-, heq⟩
  · rw [makeDirs, heq]
    rw [makeDirs, heq] at hne
    exact hself.resolve_left hne
  · exact heq

include hapart hgrounded hlists in
/-- A copy that ends without an error has everything. -/
theorem copies_copyTree (hroot : root ≠ []) (depth : ℕ) :
    Copies t source root (copyTree e depth) := by
  induction depth with
  | zero => exact fun k S => Meets.fail fun _ => id
  | succ depth ih =>
    intro k S
    -- `S` is what the backup has already; the directory is added to it first
    refine Meets.bind (Q := fun _ s => Copying t source root S s.files ∧
      s.files (root ++ k) = some .directory) (Meets.of_forall fun s hs => ?_) fun _ => ?_
    · refine (meets_mkdir s.files (root ++ k) fun u h => hs.grows_way h).mono (fun _ => id)
        (fun u h => by rw [h]) (fun _ u h => ?_) fun _ u h => hs.grows_way h
      rw [h.2]
      exact ⟨hs.grows_way (grows_makeDirs _ _), not_obstructed h.1 (by simp [hroot])⟩
    · -- the directory is listed as it was at the start
      refine Meets.bind (Q := fun entries s =>
        (t (source ++ k) = some .directory ∧ ∀ n, t (source ++ k ++ [n]) ≠ none → n ∈ entries) ∧
          Copying t source root (fun l => S l ∨ l = k) s.files)
        (Meets.mapError ((meets_readDir fun _ hs => hs.1).post (fun entries s h => ?_)
          fun _ _ hs => hs.1) fun _ _ => id) fun entries => ?_
      · obtain ⟨hdirectory, hs⟩ := h
        have hsource := hs.1.within.apart hapart
        rw [hsource] at hdirectory
        refine ⟨⟨hdirectory.1, fun n hn => ?_⟩, hs.1.within, fun l hl node hnode => ?_⟩
        · rw [← hdirectory.2]
          exact hlists s.files hsource k n hn
        · rcases hl with hl | rfl
          · exact hs.1.copied l hl node hnode
          · rw [hdirectory.1] at hnode
            cases hnode
            exact hs.2
      · refine Meets.of_and fun hentries => ?_
        refine (meets_copyEntries hapart hgrounded ih _ fun l => S l ∨ l = k).mono
          (fun s hs => hs.mono fun _ => .inl) (fun _ => id) (fun _ s hs => ?_)
          fun _ s hs => hs.mono fun _ => .inl
        refine ⟨hs.within, fun l hl node hnode => ?_⟩
        rcases hl with hl | ⟨l, rfl⟩
        · exact hs.copied l (.inl (.inl hl)) node hnode
        · cases l with
          | nil => exact hs.copied _ (.inl (.inr (by simp))) node hnode
          | cons n l =>
            have hn : t (source ++ k ++ [n]) ≠ none :=
              List.append_assoc source k [n] ▸
                hgrounded.above (k := k ++ [n]) (l := l) (by simp [hnode])
            refine hs.copied _ (.inr ⟨n, ?_, l, by simp⟩) node hnode
            exact (List.mergeSort_perm _ _).mem_iff.2 (hentries.2 n hn)

end CopyTree

end EraseMe.Migration
