import EraseMe.Storage.StoreOpen

/-!
# Closing and finalising an encrypted store

Until the canonical file has been replaced the decrypted database is there, registered and under the
lock; from then on the canonical file holds it (`Guarded`).  A closing that fails leaves the
decrypted database for `finaliseAll` — unless it was a sidecar that could not be removed, since the
database itself is removed all the same.
-/

namespace EraseMe.EncryptedStore

open Encryption Faulty Faulty.Prog

variable {τ : Type} {e : Environment τ}

/-- The lock of the database is held by a store or by the registration. -/
def LockHeld (s : State) : Prop :=
  s.locked canonicalLock = true ∧
    ((∃ store ∈ s.stores, store.encryptedPath = some .canonical ∧
        store.dbLock = some ⟨canonicalLock⟩) ∨
      ∃ r, s.encryptedTemps = some r ∧ r.lock = some ⟨canonicalLock⟩)

/-- The database is in the canonical file, or in the registered one under the lock. -/
def Guarded (e : Environment τ) (db : List τ) (s : State) : Prop :=
  Sealed e db s ∨ ∃ r, s.encryptedTemps = some r ∧ Holds e r.tmpPath db s ∧ LockHeld s

/-- The temporary database is gone, with its sidecars. -/
def Gone (name : Name) (s : State) : Prop :=
  ∀ part, part ≠ .lock → s.files ⟨name, part⟩ = none

theorem stable_gone {T : FileName → Prop} {name : Name}
    (hname : ∀ part, part ≠ .lock → ¬ T ⟨name, part⟩) : Stable e T (Gone name) :=
  fun _ _ h hs part hpart => (h.same _ (hname part hpart)).1.trans (hs part hpart)

theorem stable_known {T : FileName → Prop} {name : Name} :
    Stable e T fun s => Known e s.drawn name :=
  fun _ _ h hs => hs.mono h.drawn

/-! ### Cleaning up -/

theorem keeps_removeIfExists {F : State → Prop} {f : FileName}
    (h : ∀ s, F s → F (s.put f none)) : Keeps F (removeIfExists e f) := by
  have hremove : Keeps F (removeFile e f) := by
    refine Keeps.perform (fun s hs => ?_) fun _ _ => id
    cases s.files f with
    | none => exact hs
    | some _ => exact h s hs
  refine hremove.attempt.bind fun r => ?_
  cases r with
  | ok _ => exact Keeps.pure
  | error error =>
    show Keeps F (if error.kind = .notFound then pure () else fail error)
    split_ifs
    · exact Keeps.pure
    · exact Keeps.fail

theorem yields_cleanupRecoveryPaths {paths : List FileName} (hpaths : ∀ p ∈ paths, Transit p) :
    Yields (fun _ => True) (cleanupRecoveryPaths e paths) (fun _ _ => True)
      fun _ _ => Faulty e := by
  induction paths with
  | nil => exact Meets.pure fun _ => id
  | cons p rest ih =>
    refine Meets.bind (Q := fun _ _ => True)
      (yields_removeIfExists.post (fun _ _ _ => trivial) fun _ _ hs => ?_) fun _ =>
        ih fun q hq => hpaths q (List.mem_cons_of_mem _ hq)
    refine ⟨.remove p, ?_, hs.2⟩
    obtain ⟨id, rfl | rfl⟩ := hpaths p List.mem_cons_self
    · exact fun h => h
    · exact fun h => h

section Cleanup

variable {name : Name} {db : List τ}

/-- Without a log, the sidecars do not matter. -/
theorem keeps_removeWalSiblings : Keeps (Flat e name db) (removeWalSiblings e name) := by
  have hwal (s : State) (hs : Flat e name db s) : Flat e name db (s.put ⟨name, .wal⟩ none) := by
    have hmain : (s.put ⟨name, .wal⟩ none).files ⟨name, .main⟩ = s.files ⟨name, .main⟩ :=
      s.files_put_of_ne _ (by simp)
    have hnil : (s.put ⟨name, .wal⟩ none).wal name = [] := by
      rw [State.wal, State.files_put_self, Option.getD_none]
    refine ⟨⟨by rw [hmain]; exact hs.1.1, ?_⟩, hnil⟩
    have hview := hs.1.2
    rw [hs.2] at hview
    rw [hnil, State.main, hmain]
    exact hview
  have hshm (s : State) (hs : Flat e name db s) : Flat e name db (s.put ⟨name, .shm⟩ none) := by
    refine ⟨holds_put_shm hs.1, ?_⟩
    rw [State.wal, State.files_put_of_ne _ _ (by simp)]
    exact hs.2
  exact (keeps_removeIfExists hwal).bind fun _ => keeps_removeIfExists hshm

/-- A sidecar cannot be removed. -/
def SidecarFails (e : Environment τ) (name : Name) : Prop :=
  Fails e (.remove ⟨name, .wal⟩) ∨ Fails e (.remove ⟨name, .shm⟩)

theorem yields_removeWalSiblings {P : State → Prop} :
    Yields P (removeWalSiblings e name)
      (fun _ s => s.files ⟨name, .wal⟩ = none ∧ s.files ⟨name, .shm⟩ = none)
      fun _ _ => SidecarFails e name := by
  refine Meets.bind (Q := fun _ (s : State) => s.files ⟨name, .wal⟩ = none)
    (yields_removeIfExists.post (fun _ _ => id) fun _ _ hs => .inl hs.2) fun _ => ?_
  have hshm := Meets.and
    (keeps_removeIfExists (e := e) (f := ⟨name, .shm⟩)
      (F := fun s : State => s.files ⟨name, .wal⟩ = none) fun s hs => by
        rw [State.files_put_of_ne _ _ (by simp)]
        exact hs)
    (yields_removeIfExists (e := e) (f := ⟨name, .shm⟩) (P := fun _ => True))
  exact hshm.mono (fun _ _ => trivial) (fun _ hs => ⟨hs, trivial⟩) (fun _ _ => id)
    fun _ _ hs => .inr hs.2.2

/-- The removal of a temporary database: complete, or refused with the database still there, or
with a sidecar left and the database gone. -/
theorem meets_cleanupPlainTemp {F : State → Prop} {k i : ℕ}
    (hF : Stable e (fun f => f.name = .decrypted i) F) (hk : ∀ s, F s → k ≤ s.drawn)
    (hknown : Known e k (.decrypted i)) :
    Meets F (fun s => F s ∧ Flat e (.decrypted i) db s) (cleanupPlainTemp e (.decrypted i))
      (fun _ s => F s ∧ Gone (.decrypted i) s)
      fun _ s => F s ∧ (Flat e (.decrypted i) db s ∧ Faulty e ∨
        s.files ⟨.decrypted i, .main⟩ = none ∧ SidecarFails e (.decrypted i)) := by
  let name : Name := .decrypted i
  let Main : FileName → Prop := fun f => f = ⟨name, .main⟩
  let Siblings (r : Except IoError Unit) (s : State) : Prop :=
    Ends (fun _ s => s.files ⟨name, .wal⟩ = none ∧ s.files ⟨name, .shm⟩ = none)
      (fun _ _ => SidecarFails e name) r s
  have hsiblings : Meets F (fun s => F s ∧ Flat e name db s) (removeWalSiblings e name)
      (fun _ s => (F s ∧ Flat e name db s) ∧
        (s.files ⟨name, .wal⟩ = none ∧ s.files ⟨name, .shm⟩ = none))
      fun _ s => (F s ∧ Flat e name db s) ∧ SidecarFails e name := by
    have hkept := ((touches_removeWalSiblings (fun _ _ => rfl) hknown).frame_meets
      (keeps_removeWalSiblings : Keeps (Flat e name db) _) hF hk).and
        (yields_removeWalSiblings (P := fun _ => True) : Yields _ (removeWalSiblings e name) _ _)
    refine hkept.mono (fun _ hs => hs.1.1) (fun _ hs => ⟨hs, trivial⟩) (fun _ _ => id)
      fun _ _ => id
  refine Meets.bind (Meets.attempt hsiblings) fun siblings => ?_
  refine Meets.pre (P := fun s => (F s ∧ Siblings siblings s) ∧ Flat e name db s) ?_ fun s hs => ?_
  · have hkept : Stable e Main fun s => F s ∧ Siblings siblings s := by
      refine (hF.mono fun f hf => by rw [hf]).and ?_
      cases siblings with
      | ok _ => exact (stable_file (by simp [Main])).and (stable_file (by simp [Main]))
      | error _ => exact fun _ _ _ => id
    refine Meets.bind (Meets.attempt (((touches_removeIfExists (T := Main) rfl hknown).frame
      yields_removeIfExists hkept fun s hs => hk s hs.1).mono (fun _ hs => hs.1) (fun _ => id)
        (fun _ _ => id) fun _ _ => id)) fun r => ?_
    cases r with
    | error error =>
      refine Meets.bind (Q := fun _ s => (F s ∧ Siblings siblings s) ∧ Flat e name db s ∧
        Fails e (.remove ⟨name, .main⟩)) (Meets.pure fun _ hs => hs) fun _ => Meets.fail ?_
      exact fun s hs => ⟨hs.1.1, .inl ⟨hs.2.1, .remove ⟨name, .main⟩, id, hs.2.2⟩⟩
    | ok _ =>
      refine Meets.bind (Q := fun _ s => (F s ∧ Siblings siblings s) ∧
        s.files ⟨name, .main⟩ = none) (Meets.pure fun _ hs => hs) fun _ => Meets.bind
          (Q := fun _ s => (F s ∧ Siblings siblings s) ∧ s.files ⟨name, .main⟩ = none)
          (Meets.pure fun _ hs => hs) fun _ => Meets.ofExcept fun s hs => ?_
      cases siblings with
      | ok _ =>
        refine ⟨hs.1.1, fun part hpart => ?_⟩
        cases part with
        | main => exact hs.2
        | wal => exact hs.1.2.1
        | shm => exact hs.1.2.2
        | lock => exact absurd rfl hpart
      | error _ => exact ⟨hs.1.1, .inr ⟨hs.2, hs.1.2⟩⟩
  · cases siblings with
    | ok _ => exact ⟨⟨hs.1.1, hs.2⟩, hs.1.2⟩
    | error _ => exact ⟨⟨hs.1.1, hs.2⟩, hs.1.2⟩

end Cleanup

/-! ### The registry -/

/-- The registration of a store whose closing failed. -/
def retainedTemp (i : ℕ) (paths : List FileName) : RegisteredTemp where
  tmpPath := .decrypted i
  active := false
  lock := some ⟨canonicalLock⟩
  tempLock := some (tempLockOf (.decrypted i))
  recoveryPaths := paths

/-- The recovery paths of a registration are files of transitions. -/
def Recoverable (e : Environment τ) (paths : List FileName) (s : State) : Prop :=
  ∀ p ∈ paths, Transit p ∧ Known e s.drawn p.name

/-- A closing failed: its registration has the lock and the recovery copies. -/
def Retained (e : Environment τ) (i : ℕ) (s : State) : Prop :=
  ∃ paths, (Base e (some (retainedTemp i paths)) [] s ∧ s.locked canonicalLock = true) ∧
    Known e s.drawn (.decrypted i) ∧ Recoverable e paths s

/-- The lock file of a decrypted database. -/
def TempLock (i : ℕ) (f : FileName) : Prop := f = ⟨.decrypted i, .lock⟩

theorem meets_cleanupTempLockAfterMain {ε : Type} {E : ε → State → Prop} {F : State → Prop}
    {k i : ℕ} (hF : Stable e (TempLock i) F) (hk : ∀ s, F s → k ≤ s.drawn)
    (hknown : Known e k (.decrypted i)) :
    Meets F F (cleanupTempLockAfterMain e (.decrypted i) (some (tempLockOf (.decrypted i))))
      (fun _ => F) E := by
  have hclose : Keeps F ((tempLockOf (.decrypted i)).close e) :=
    (touches_close (T := TempLock i) rfl hknown).keeps hF hk
  have hremove : Keeps F (removeIfExists e ⟨.decrypted i, .lock⟩) :=
    (touches_removeIfExists (T := TempLock i) rfl hknown).keeps hF hk
  refine Meets.bind hclose.meets_attempt fun r => ?_
  cases r with
  | error _ => exact Meets.pure fun _ => id
  | ok _ => exact Meets.bind hremove.meets_attempt fun _ => Meets.pure fun _ => id

theorem meets_drop {ε : Type} {E : ε → State → Prop} {F : State → Prop} {k : ℕ} {lock : DbLock}
    (hF : Stable e (fun f => f = lock.path) F) (hk : ∀ s, F s → k ≤ s.drawn)
    (hknown : Known e k lock.path.name) :
    Meets F F lock.drop (fun _ s => F s ∧ s.locked lock.path = false) E := by
  have hdrop (s : State) (hs : F s) : F (s.setLocked lock.path false) :=
    hF s _ ((Agree.refl s).setLocked (hk s hs) rfl hknown) hs
  exact Meets.update hdrop fun s hs => ⟨hdrop s hs, s.locked_setLocked_self _ _⟩

/-- The registration goes, then its lock on the decrypted database, then its lock on the database,
if it has that. -/
theorem meets_unregisterTemp {ε : Type} {E : ε → State → Prop} {G : State → Prop} {k i : ℕ}
    {r : RegisteredTemp} {stores : List Store} (htmp : r.tmpPath = .decrypted i)
    (htemp : r.tempLock = some (tempLockOf (.decrypted i)))
    (hlock : r.lock = none ∨ r.lock = some ⟨canonicalLock⟩)
    (hG : Stable e (fun f => TempLock i f ∨ f = canonicalLock) G)
    (htemps : ∀ s t, G s → G { s with encryptedTemps := t })
    (hk : ∀ s, G s → k ≤ s.drawn) (hknown : Known e k (.decrypted i)) :
    Meets G (fun s => (Base e (some r) stores s ∧ s.locked canonicalLock = true) ∧ G s)
      (unregisterTemp e)
      (fun _ s => (Base e none stores s ∧ s.locked canonicalLock = r.lock.isNone) ∧ G s) E := by
  refine Meets.bind (Q := fun temps s => temps = some r ∧
    (Base e (some r) stores s ∧ s.locked canonicalLock = true) ∧ G s)
    (Meets.inspect fun s hs => ⟨hs.1.1.2.1, hs⟩) fun temps => Meets.of_and ?_
  rintro rfl
  let F : State → Prop := fun s => Base e none stores s ∧ G s
  let H : State → Prop := fun s => F s ∧ s.locked canonicalLock = true
  have hH : Stable e (TempLock i) H := (stable_base.and (hG.mono fun f hf => .inl hf)).and
    (stable_locked (by simp [TempLock, canonicalLock]))
  have hkH (s : State) (hs : H s) : k ≤ s.drawn := hk s hs.1.2
  refine Meets.bind (Q := fun _ => H) (Meets.update (fun s hs => htemps s _ hs.2) fun s hs => ?_)
    fun _ => ?_
  · exact ⟨⟨⟨hs.1.1.1, rfl, hs.1.1.2.2⟩, htemps s _ hs.2⟩, hs.1.2⟩
  rw [htmp, htemp]
  refine Meets.bind (Q := fun _ => H) ((meets_cleanupTempLockAfterMain hH hkH hknown).mono
    (fun _ hs => hs.1.2) (fun _ => id) (fun _ _ => id) fun _ _ => id) fun _ => ?_
  have hdropped : Meets G H ((tempLockOf (.decrypted i)).drop : Prog State ε Unit) (fun _ => H) E :=
    (meets_drop hH hkH hknown).mono (fun _ hs => hs.1.2) (fun _ => id) (fun _ _ hs => hs.1)
      fun _ _ => id
  refine Meets.bind (Q := fun _ => H) hdropped fun _ => ?_
  rcases hlock with hnone | hsome
  · rw [hnone]
    exact Meets.pure fun s hs => ⟨⟨hs.1.1, hs.2⟩, hs.1.2⟩
  · rw [hsome]
    have hF : Stable e (fun f => f = canonicalLock) F :=
      stable_base.and (hG.mono fun f hf => .inr hf)
    have hdrop : Meets F F ((⟨canonicalLock⟩ : DbLock).drop : Prog State ε Unit)
        (fun _ s => F s ∧ s.locked canonicalLock = false) E :=
      meets_drop hF (fun s hs => hk s hs.2) (known_canonical k)
    exact hdrop.mono (fun _ hs => hs.2) (fun _ hs => hs.1) (fun _ s hs => ⟨⟨hs.1.1, hs.2⟩, hs.1.2⟩)
      fun _ _ => id

/-! ### Closing -/

/-- The store is being closed; its connection may be closed already. -/
def Closing (e : Environment τ) (k i : ℕ) (connection : Option Name) (s : State) : Prop :=
  (Base e (some (activeTemp i)) [openedStore i connection] s ∧ s.locked canonicalLock = true) ∧
    k ≤ s.drawn

/-- Why a closing fails, and what is left of the decrypted database. -/
def Left (e : Environment τ) (i : ℕ) (db : List τ) (s : State) : Prop :=
  Holds e (.decrypted i) db s ∧ Faulty e ∨
    Sealed e db s ∧ s.files ⟨.decrypted i, .main⟩ = none ∧ SidecarFails e (.decrypted i)

/-- How `closeStoreInner` fails. -/
def CloseFailed (e : Environment τ) (k i : ℕ) (db : List τ) (error : EncryptedStoreError)
    (s : State) : Prop :=
  Remembers e error s ∧ Left e i db s ∧ ∃ connection, Closing e k i connection s ∧
    (connection = none ∨ connection = some (.decrypted i) ∧ Holds e (.decrypted i) db s)

theorem remembers_none {error : EncryptedStoreError} {s : State} (h : recoveryPath error = none) :
    Remembers e error s := by
  intro p hp
  rw [h] at hp
  cases hp

section Closing

variable {k i : ℕ} {connection : Option Name} {db : List τ}

theorem stable_closing {T : FileName → Prop} (hlock : ¬ T canonicalLock) :
    Stable e T (Closing e k i connection) :=
  (stable_base.and (stable_locked hlock)).and stable_drawn

theorem Closing.guarded {s : State} (h : Closing e k i connection s)
    (hholds : Holds e (.decrypted i) db s) : Guarded e db s := by
  refine .inr ⟨activeTemp i, h.1.1.2.1, hholds, h.1.2, .inl ⟨openedStore i connection, ?_, rfl, rfl⟩⟩
  rw [h.1.1.2.2]
  exact List.mem_singleton_self _

/-- A failure while the decrypted database is there. -/
theorem closeFailed_of_holds {error : EncryptedStoreError} {s : State}
    (hclosing : Closing e k i connection s) (hholds : Holds e (.decrypted i) db s)
    (hfaulty : Faulty e) (hconnection : connection = none ∨ connection = some (.decrypted i))
    (hremembers : Remembers e error s) : CloseFailed e k i db error s := by
  refine ⟨hremembers, .inl ⟨hholds, hfaulty⟩, connection, hclosing, ?_⟩
  rcases hconnection with hnone | hsome
  · exact .inl hnone
  · exact .inr ⟨hsome, hholds⟩

/-- What a program has to know to work on the decrypted database of number `i`: who has the lock,
and that the registry is there. -/
structure Custody (e : Environment τ) (k i : ℕ) (db : List τ) (W : State → Prop) : Prop where
  stable : ∀ T : FileName → Prop, ¬ T canonicalLock → Stable e T W
  guarded : ∀ s, W s → Holds e (.decrypted i) db s → Guarded e db s
  drawn : ∀ s, W s → k ≤ s.drawn
  fresh : ∀ s, W s → Fresh e s

theorem custody_closing : Custody e k i db (Closing e k i connection) where
  stable _ hlock := stable_closing hlock
  guarded _ hs hholds := hs.guarded hholds
  drawn _ hs := hs.2
  fresh _ hs := hs.1.1.1

/-- The connection is closed; the log stays empty. -/
theorem meets_replaceConnection (hknown : Known e k (.decrypted i)) :
    Meets (Guarded e db)
      (fun s => Closing e k i (some (.decrypted i)) s ∧ Flat e (.decrypted i) db s)
      (replaceConnection e 0 (openedStore i (some (.decrypted i))))
      (fun _ s => Closing e k i none s ∧ Flat e (.decrypted i) db s) (CloseFailed e k i db) := by
  refine Meets.bind (Q := fun _ s => Closing e k i none s ∧ Flat e (.decrypted i) db s)
    (Meets.perform (fun s hs => ?_) (fun s hs => ?_) fun n fault s hfault hs => ?_) fun _ => ?_
  · have hclosing : Closing e k i none
        { s with stores := s.stores.set 0 { openedStore i (some (.decrypted i)) with
          connection := none } } := by
      refine ⟨⟨⟨hs.1.1.1.1, hs.1.1.1.2.1, ?_⟩, hs.1.1.2⟩, hs.1.2⟩
      show s.stores.set 0 _ = _
      rw [hs.1.1.1.2.2]
      rfl
    exact hclosing.guarded hs.2.1
  · refine ⟨⟨⟨⟨hs.1.1.1.1, hs.1.1.1.2.1, ?_⟩, hs.1.1.2⟩, hs.1.2⟩, hs.2⟩
    show s.stores.set 0 _ = _
    rw [hs.1.1.1.2.2]
    rfl
  · exact ⟨hs.1.guarded hs.2.1, closeFailed_of_holds hs.1 hs.2.1 ⟨_, id, n, fault, hfault⟩
      (.inr rfl) (remembers_none rfl)⟩
  · have hF : Stable e (fun f => f.name = .decrypted i) (Closing e k i none) :=
      stable_closing (by simp [canonicalLock])
    exact ((touches_closeConnection (fun _ _ => rfl) hknown).frame_meets
      (meets_closeConnection_flat (E := fun _ _ => False)) hF fun _ hs => hs.2).mono
        (fun s hs => hs.1.guarded hs.2) (fun _ => id) (fun _ _ => id) fun _ _ hs => hs.2.elim

/-- The files of a transition, with its target. -/
def Transition (f : FileName) : Prop := f = canonicalFile ∨ Transit f

theorem transition_decrypted {part : Part} : ¬ Transition ⟨.decrypted i, part⟩ := by
  rintro (h | ⟨id, h | h⟩)
  all_goals cases h

theorem transition_lock : ¬ Transition canonicalLock := by
  rintro (h | ⟨id, h | h⟩)
  all_goals cases h

section Custody

variable {W : State → Prop} (hW : Custody e k i db W)
include hW

/-- A step that leaves the decrypted database alone. -/
theorem Custody.frame {ε α : Type} {T : FileName → Prop} {m : Prog State ε α} {P : State → Prop}
    {Q : α → State → Prop} {E : ε → State → Prop} (h : Touches e k T m) (hm : Yields P m Q E)
    (hdecrypted : ∀ part, part ≠ .lock → ¬ T ⟨.decrypted i, part⟩) (hlock : ¬ T canonicalLock) :
    Meets (Guarded e db) (fun s => (W s ∧ Flat e (.decrypted i) db s) ∧ P s) m
      (fun a s => (W s ∧ Flat e (.decrypted i) db s) ∧ Q a s)
      fun error s => (W s ∧ Flat e (.decrypted i) db s) ∧ E error s := by
  have hF : Stable e T fun s => W s ∧ Flat e (.decrypted i) db s :=
    (hW.stable T hlock).and (stable_flat (hdecrypted _ (by decide)) (hdecrypted _ (by decide)))
  exact (h.frame hm hF fun s hs => hW.drawn s hs.1).mono (fun s hs => hW.guarded s hs.1 hs.2.1)
    (fun _ => id) (fun _ _ => id) fun _ _ => id

/-- The decrypted database is read, which is all of it once its log is empty. -/
theorem Custody.read :
    Meets (Guarded e db) (fun s => W s ∧ Flat e (.decrypted i) db s)
      (readFile e ⟨.decrypted i, .main⟩)
      (fun plain s => e.database.view plain [] = some db ∧ W s ∧ Flat e (.decrypted i) db s)
      fun _ s => (W s ∧ Flat e (.decrypted i) db s) ∧ Faulty e := by
  refine (hW.frame (touches_readFile (T := fun _ => False)) (yields_readFile
    (P := Flat e (.decrypted i) db)) (fun _ _ => id) id).mono (fun _ => id)
      (fun s hs => ⟨hs, hs.2⟩) (fun plain s hs => ⟨hs.1.2.view_file hs.2.2, hs.1⟩)
      fun error s hs => ⟨hs.1, ?_⟩
  rcases hs.2.2 with ⟨hnone, -⟩ | ⟨-, hfaulty⟩
  · exact absurd hnone hs.1.2.1.1
  · exact hfaulty

/-- The log goes into the database. -/
theorem Custody.checkpoint (hknown : Known e k (.decrypted i)) :
    Meets (Guarded e db) (fun s => W s ∧ Holds e (.decrypted i) db s)
      (checkpointWal e (.decrypted i)) (fun _ s => W s ∧ Flat e (.decrypted i) db s)
      fun _ s => (W s ∧ Holds e (.decrypted i) db s) ∧ Faulty e :=
  ((touches_checkpointWal (fun _ _ => rfl) hknown).frame_meets meets_checkpointWal
    (hW.stable (fun f => f.name = .decrypted i) (by simp [canonicalLock])) hW.drawn).mono
      (fun s hs => hW.guarded s hs.1 hs.2) (fun _ => id) (fun _ _ => id)
      fun _ _ hs => ⟨⟨hs.1, hs.2.1⟩, hs.2.2⟩

theorem Custody.open (hknown : Known e k (.decrypted i)) :
    Meets (Guarded e db) (fun s => W s ∧ Holds e (.decrypted i) db s)
      (Store.open e (.decrypted i)) (fun _ s => W s ∧ Holds e (.decrypted i) db s)
      fun _ s => (W s ∧ Holds e (.decrypted i) db s) ∧ Faulty e :=
  ((touches_open (fun _ _ => rfl) hknown).frame_meets meets_open
    (hW.stable (fun f => f.name = .decrypted i) (by simp [canonicalLock])) hW.drawn).mono
      (fun s hs => hW.guarded s hs.1 hs.2) (fun _ => id) (fun _ _ => id)
      fun _ _ hs => ⟨⟨hs.1, hs.2.1⟩, hs.2.2⟩

theorem Custody.closeConnection {ε : Type} {E : ε → State → Prop}
    (hknown : Known e k (.decrypted i)) :
    Meets (Guarded e db) (fun s => W s ∧ Holds e (.decrypted i) db s)
      (closeConnection e (.decrypted i)) (fun _ s => W s ∧ Holds e (.decrypted i) db s) E :=
  ((touches_closeConnection (fun _ _ => rfl) hknown).frame_meets
    (meets_closeConnection (E := fun _ _ => False))
    (hW.stable (fun f => f.name = .decrypted i) (by simp [canonicalLock])) hW.drawn).mono
      (fun s hs => hW.guarded s hs.1 hs.2) (fun _ => id) (fun _ _ => id) fun _ _ hs => hs.2.elim

theorem Custody.closeConnection_flat {ε : Type} {E : ε → State → Prop}
    (hknown : Known e k (.decrypted i)) :
    Meets (Guarded e db) (fun s => W s ∧ Flat e (.decrypted i) db s)
      (EncryptedStore.closeConnection e (.decrypted i))
      (fun _ s => W s ∧ Flat e (.decrypted i) db s) E :=
  ((touches_closeConnection (fun _ _ => rfl) hknown).frame_meets
    (meets_closeConnection_flat (E := fun _ _ => False))
    (hW.stable (fun f => f.name = .decrypted i) (by simp [canonicalLock])) hW.drawn).mono
      (fun s hs => hW.guarded s hs.1 hs.2) (fun _ => id) (fun _ _ => id) fun _ _ hs => hs.2.elim

theorem Custody.masterKey :
    Meets (Guarded e db) (fun s => W s ∧ Holds e (.decrypted i) db s) (currentMasterKey e)
      (fun key s => key = e.masterKey ∧ W s ∧ Holds e (.decrypted i) db s)
      fun error s => error = .masterKeyUnavailable ∧ (W s ∧ Holds e (.decrypted i) db s) ∧
        Faulty e := by
  have hF : Stable e (fun _ => False) fun s => W s ∧ Holds e (.decrypted i) db s :=
    (hW.stable _ id).and (stable_holds id id)
  exact ((touches_currentMasterKey (T := fun _ => False)).frame (yields_currentMasterKey
    (P := fun _ => True)) hF fun s hs => hW.drawn s hs.1).mono
      (fun s hs => hW.guarded s hs.1 hs.2) (fun _ hs => ⟨hs, trivial⟩)
      (fun _ _ hs => ⟨hs.2.1, hs.1⟩) fun _ _ hs => ⟨hs.2.1, hs.1, hs.2.2.2⟩

theorem Custody.encrypt (hc : e.crypto.Correct) {plain : Bytes}
    (hview : e.database.view plain [] = some db) :
    Meets (Guarded e db) (fun s => W s ∧ Flat e (.decrypted i) db s)
      (encryptV3 e plain e.masterKey)
      (fun raw s => Envelope e db raw ∧ W s ∧ Flat e (.decrypted i) db s)
      fun _ s => (W s ∧ Flat e (.decrypted i) db s) ∧ Faulty e :=
  (hW.frame (touches_encryptV3 (T := fun _ => False)) (yields_encryptV3 hc
    (P := fun _ => True)) (fun _ _ => id) id).mono (fun _ => id) (fun _ hs => ⟨hs, trivial⟩)
      (fun _ _ hs => ⟨hs.2 db hview, hs.1⟩) fun _ _ => id

/-- The canonical file is replaced while the decrypted database is still there. -/
theorem Custody.publish {raw : Bytes} (henvelope : Envelope e db raw) :
    Meets (Guarded e db) (fun s => W s ∧ Flat e (.decrypted i) db s)
      (atomicTransitionWithRecovery e canonicalFile raw)
      (fun _ s => (W s ∧ Flat e (.decrypted i) db s) ∧ Sealed e db s)
      fun error s => (W s ∧ Flat e (.decrypted i) db s) ∧ Remembers e error s ∧ Faulty e :=
  (hW.frame (touches_atomicTransition (T := Transition) (.inl rfl) fun _ => .inr)
    yields_atomicTransition (fun _ _ => transition_decrypted) transition_lock).mono (fun _ => id)
      (fun s hs => ⟨hs, hW.fresh s hs.1⟩) (fun _ _ hs => ⟨hs.1, raw, hs.2, henvelope⟩)
      fun _ _ => id

/-- The recovery copies go once the canonical file is the new one. -/
theorem Custody.cleanupRecovery {paths : List FileName} :
    Meets (Guarded e db)
      (fun s => Recoverable e paths s ∧ (W s ∧ Flat e (.decrypted i) db s) ∧ Sealed e db s)
      (cleanupRecoveryPaths e paths)
      (fun _ s => (W s ∧ Flat e (.decrypted i) db s) ∧ Sealed e db s)
      fun _ s => (W s ∧ Flat e (.decrypted i) db s) ∧ Faulty e := by
  refine Meets.of_forall fun s hs => ?_
  obtain ⟨hpaths, hs⟩ := hs
  have hdecrypted {part : Part} : ¬ Transit ⟨.decrypted i, part⟩ :=
    fun h => transition_decrypted (.inr h)
  have hF : Stable e Transit fun t => ((W t ∧ Flat e (.decrypted i) db t) ∧ Sealed e db t) ∧
      s.drawn ≤ t.drawn := by
    refine (((hW.stable _ fun h => transition_lock (.inr h)).and
      (stable_flat hdecrypted hdecrypted)).and (stable_sealed ?_)).and stable_drawn
    rintro ⟨id, h | h⟩
    all_goals cases h
  refine ((touches_cleanupRecoveryPaths (k := s.drawn) (fun p hp => (hpaths p hp).1)
    fun p hp => (hpaths p hp).2).frame (yields_cleanupRecoveryPaths fun p hp => (hpaths p hp).1)
      hF fun _ ht => ht.2).mono (fun t ht => .inl ht.1.2) ?_ (fun _ t ht => ht.1.1)
        fun _ t ht => ⟨ht.1.1.1, ht.2⟩
  rintro t rfl
  exact ⟨⟨hs, le_rfl⟩, trivial⟩

theorem Custody.removeSiblings :
    Meets (Guarded e db) (fun s => (W s ∧ Flat e (.decrypted i) db s) ∧ Sealed e db s)
      (removeWalSiblings e .canonical)
      (fun _ s => (W s ∧ Sealed e db s) ∧ Flat e (.decrypted i) db s)
      fun _ s => (W s ∧ Flat e (.decrypted i) db s) ∧ Faulty e := by
  let Sidecars : FileName → Prop := fun f => f.name = .canonical ∧ (f.part = .wal ∨ f.part = .shm)
  have hremove : Touches e k Sidecars (removeWalSiblings e .canonical) :=
    (touches_removeIfExists ⟨rfl, .inl rfl⟩ (known_canonical k)).bind fun _ =>
      touches_removeIfExists ⟨rfl, .inr rfl⟩ (known_canonical k)
  have hkept : Stable e Sidecars fun s => (W s ∧ Flat e (.decrypted i) db s) ∧ Sealed e db s :=
    ((hW.stable _ (by simp [Sidecars, canonicalLock])).and
      (stable_flat (by simp [Sidecars]) (by simp [Sidecars]))).and
        (stable_sealed (by simp [Sidecars, canonicalFile]))
  refine (hremove.frame (yields_removeWalSiblings (P := fun _ => True)) hkept
    fun s hs => hW.drawn s hs.1.1).mono (fun s hs => .inl hs.2) (fun _ hs => ⟨hs, trivial⟩)
      (fun _ s hs => ⟨⟨hs.1.1.1, hs.1.2⟩, hs.1.1.2⟩) fun _ s hs => ⟨hs.1.1, ?_⟩
  rcases hs.2 with hfails | hfails
  · exact ⟨.remove ⟨.canonical, .wal⟩, id, hfails⟩
  · exact ⟨.remove ⟨.canonical, .shm⟩, id, hfails⟩

/-- From here on the canonical file is what holds the database. -/
theorem Custody.cleanup (hknown : Known e k (.decrypted i)) :
    Meets (Guarded e db) (fun s => (W s ∧ Sealed e db s) ∧ Flat e (.decrypted i) db s)
      (cleanupPlainTemp e (.decrypted i))
      (fun _ s => (W s ∧ Sealed e db s) ∧ Gone (.decrypted i) s)
      fun _ s => W s ∧ Left e i db s := by
  have hF : Stable e (fun f => f.name = .decrypted i) fun s => W s ∧ Sealed e db s :=
    (hW.stable _ (by simp [canonicalLock])).and (stable_sealed (by simp [canonicalFile]))
  refine (meets_cleanupPlainTemp hF (fun s hs => hW.drawn s hs.1) hknown).mono
    (fun s hs => .inl hs.2) (fun _ => id) (fun _ _ => id) fun _ s hs => ⟨hs.1.1, ?_⟩
  rcases hs.2 with ⟨hflat, hfaulty⟩ | hgone
  · exact .inl ⟨hflat.1, hfaulty⟩
  · exact .inr ⟨hs.1.2, hgone⟩

end Custody

/-- The registration goes once everything else is done. -/
theorem meets_unregisterSealed {E : EncryptedStoreError → State → Prop} {r : RegisteredTemp}
    {stores : List Store} (htmp : r.tmpPath = .decrypted i)
    (htemp : r.tempLock = some (tempLockOf (.decrypted i)))
    (hlock : r.lock = none ∨ r.lock = some ⟨canonicalLock⟩)
    (hknown : Known e k (.decrypted i)) :
    Meets (Guarded e db)
      (fun s => ((Base e (some r) stores s ∧ s.locked canonicalLock = true) ∧ k ≤ s.drawn) ∧
        Sealed e db s ∧ Gone (.decrypted i) s)
      (unregisterTemp e)
      (fun _ s => (Base e none stores s ∧ s.locked canonicalLock = r.lock.isNone) ∧
        Sealed e db s ∧ Gone (.decrypted i) s) E := by
  refine (meets_unregisterTemp (G := fun s => (Sealed e db s ∧ Gone (.decrypted i) s) ∧
    k ≤ s.drawn) htmp htemp hlock ?_ (fun _ _ => id) (fun _ hs => hs.2) hknown).mono
      (fun s hs => .inl hs.1.1) (fun s hs => ⟨hs.1.1, hs.2, hs.1.2⟩)
      (fun _ s hs => ⟨hs.1, hs.2.1⟩) fun _ _ => id
  refine ((stable_sealed ?_).and (stable_gone fun part hpart => ?_)).and stable_drawn
  · simp [TempLock, canonicalFile, canonicalLock]
  · simpa [TempLock, canonicalLock] using hpart

/-- A closing that fails leaves the decrypted database, or has done everything but the removal of a
sidecar. -/
theorem meets_closeStoreInner (hc : e.crypto.Correct) (hknown : Known e k (.decrypted i)) :
    Meets (Guarded e db)
      (fun s => Closing e k i (some (.decrypted i)) s ∧ Holds e (.decrypted i) db s)
      (closeStoreInner e 0 (openedStore i (some (.decrypted i))))
      (fun _ s => (Base e none [openedStore i none] s ∧ s.locked canonicalLock = true) ∧
        Sealed e db s ∧ Gone (.decrypted i) s)
      (CloseFailed e k i db) := by
  have hfailed {connection : Option Name} {error : EncryptedStoreError} {s : State}
      (hs : Closing e k i connection s ∧ Flat e (.decrypted i) db s) (hfaulty : Faulty e)
      (hconnection : connection = none ∨ connection = some (.decrypted i))
      (herror : recoveryPath error = none) : CloseFailed e k i db error s :=
    closeFailed_of_holds hs.1 hs.2.1 hfaulty hconnection (remembers_none herror)
  have hopen : Custody e k i db (Closing e k i (some (.decrypted i))) := custody_closing
  have hclosed : Custody e k i db (Closing e k i none) := custody_closing
  refine Meets.bind (Meets.mapError (hopen.checkpoint hknown) fun error s hs =>
    closeFailed_of_holds hs.1.1 hs.1.2 hs.2 (.inr rfl) (remembers_none rfl)) fun _ => ?_
  have hkey : Meets (Guarded e db)
      (fun s => Closing e k i (some (.decrypted i)) s ∧ Flat e (.decrypted i) db s)
      (currentMasterKey e)
      (fun key s => key = e.masterKey ∧
        Closing e k i (some (.decrypted i)) s ∧ Flat e (.decrypted i) db s)
      (CloseFailed e k i db) := by
    refine (hopen.frame (touches_currentMasterKey (T := fun _ => False))
      (yields_currentMasterKey (P := fun _ => True)) (fun _ _ => id) id).mono (fun _ => id)
        (fun _ hs => ⟨hs, trivial⟩) (fun _ _ hs => ⟨hs.2.1, hs.1⟩) fun error s hs => ?_
    obtain ⟨hs, rfl, -, hfaulty⟩ := hs
    exact hfailed hs hfaulty (.inr rfl) rfl
  refine Meets.bind hkey fun key => Meets.of_and ?_
  rintro rfl
  refine Meets.bind (meets_replaceConnection hknown) fun _ => ?_
  refine Meets.bind (Meets.mapError hclosed.read fun error s hs =>
    hfailed hs.1 hs.2 (.inl rfl) rfl) fun plain => Meets.of_and fun hview => ?_
  refine Meets.bind (Meets.mapError (hclosed.encrypt hc hview) fun error s hs =>
    hfailed hs.1 hs.2 (.inl rfl) rfl) fun raw => Meets.of_and fun henvelope => ?_
  refine Meets.bind ((hclosed.publish henvelope).post (fun _ _ => id) fun error s hs =>
    closeFailed_of_holds hs.1.1 hs.1.2.1 hs.2.2 (.inl rfl) hs.2.1) fun _ => ?_
  -- An open store has no recovery copies yet.
  refine Meets.bind (Q := fun paths s => Recoverable e paths s ∧
    (Closing e k i none s ∧ Flat e (.decrypted i) db s) ∧ Sealed e db s)
    (Meets.inspect fun s hs => ⟨?_, hs⟩) fun paths => ?_
  · rw [hs.1.1.1.1.2.1]
    intro p hp
    cases hp
  refine Meets.bind (Meets.mapError hclosed.cleanupRecovery fun error s hs =>
    hfailed hs.1 hs.2 (.inl rfl) rfl) fun _ => ?_
  refine Meets.bind (Meets.mapError hclosed.removeSiblings fun error s hs =>
    hfailed hs.1 hs.2 (.inl rfl) rfl) fun _ => ?_
  refine Meets.bind (Meets.mapError (hclosed.cleanup hknown) fun error s hs =>
    ⟨remembers_none rfl, hs.2, none, hs.1, .inl rfl⟩) fun _ => ?_
  exact (meets_unregisterSealed (r := activeTemp i) rfl rfl (.inl rfl) hknown).pre
    fun s hs => ⟨hs.1.1, hs.1.2, hs.2⟩

theorem remember_retainedTemp {paths : List FileName} {error : EncryptedStoreError} {s : State}
    (hpaths : Recoverable e paths s) (herror : Remembers e error s) :
    ∃ paths', (retainedTemp i paths).remember error = retainedTemp i paths' ∧
      Recoverable e paths' s := by
  unfold RegisteredTemp.remember
  cases hpath : recoveryPath error with
  | none => exact ⟨paths, rfl, hpaths⟩
  | some p =>
    by_cases hmem : p ∈ (retainedTemp i paths).recoveryPaths
    · exact ⟨paths, if_pos hmem, hpaths⟩
    · refine ⟨paths ++ [p], if_neg hmem, fun q hq => ?_⟩
      rcases List.mem_append.mp hq with h | h
      · exact hpaths q h
      · rw [List.mem_singleton.mp h]
        exact herror p hpath

/-- The registration has the lock; what is left of the store is its connection. -/
def Retaining (e : Environment τ) (k i : ℕ) (connection : Option Name) (s : State) : Prop :=
  ∃ paths, ((Base e (some (retainedTemp i paths))
      [{ openedStore i connection with dbLock := none }] s ∧ s.locked canonicalLock = true) ∧
    k ≤ s.drawn) ∧ Recoverable e paths s

theorem stable_retaining {T : FileName → Prop} (hlock : ¬ T canonicalLock) :
    Stable e T (Retaining e k i connection) := by
  rintro s t h ⟨paths, hs, hpaths⟩
  refine ⟨paths, ((stable_base.and (stable_locked hlock)).and stable_drawn) s t h hs,
    fun p hp => ⟨(hpaths p hp).1, (hpaths p hp).2.mono h.drawn⟩⟩

theorem Retaining.guarded {s : State} (h : Retaining e k i connection s)
    (hleft : Left e i db s) : Guarded e db s := by
  obtain ⟨paths, hs, -⟩ := h
  rcases hleft with ⟨hholds, -⟩ | ⟨hsealed, -⟩
  · exact .inr ⟨_, hs.1.1.2.1, hholds, hs.1.2, .inr ⟨_, hs.1.1.2.1, rfl⟩⟩
  · exact .inl hsealed

theorem retaining_of_closeFailed {error : EncryptedStoreError} {s : State}
    (hclosing : Closing e k i connection s) (hremembers : Remembers e error s) :
    Retaining e k i connection (s.retainFailedClose 0 error) := by
  have hnil : Recoverable e [] s := fun p hp => by cases hp
  obtain ⟨paths, hpaths, hrecoverable⟩ := remember_retainedTemp (i := i) hnil hremembers
  have hstate : s.retainFailedClose 0 error =
      { s with
        stores := [{ openedStore i connection with dbLock := none }]
        encryptedTemps := some (retainedTemp i paths) } := by
    rw [← hpaths]
    simp only [State.retainFailedClose, hclosing.1.1.2.2, hclosing.1.1.2.1]
    rfl
  rw [hstate]
  exact ⟨paths, ⟨⟨⟨hclosing.1.1.1, rfl, rfl⟩, hclosing.1.2⟩, hclosing.2⟩, hrecoverable⟩

/-- What is left of a store is dropped. -/
theorem meets_dropRetaining {E : EncryptedStoreError → State → Prop}
    (hknown : Known e k (.decrypted i)) :
    Meets (Guarded e db)
      (fun s => (Retaining e k i connection s ∧ Left e i db s) ∧
        (connection = none ∨ connection = some (.decrypted i) ∧ Holds e (.decrypted i) db s))
      (dropStore e 0) (fun _ s => Retained e i s ∧ Left e i db s) E := by
  let store : Store := { openedStore i connection with dbLock := none }
  refine Meets.bind (Q := fun found s => found = some store ∧
    (Retaining e k i connection s ∧ Left e i db s) ∧ (connection = none ∨
      connection = some (.decrypted i) ∧ Holds e (.decrypted i) db s))
    (Meets.inspect fun s hs => ⟨?_, hs⟩) fun found => Meets.of_and ?_
  · obtain ⟨paths, hbase, -⟩ := hs.1.1
    rw [hbase.1.1.2.2]
    rfl
  rintro rfl
  refine Meets.bind (Q := fun _ s => Retaining e k i connection s ∧ Left e i db s) ?_ fun _ => ?_
  · cases connection with
    | none => exact Meets.pure fun s hs => hs.1
    | some name =>
      refine Meets.of_forall fun s hs => ?_
      obtain ⟨⟨hretaining, hleft⟩, hholds⟩ := hs
      rcases hholds with hnone | ⟨hname, hholds⟩
      · cases hnone
      obtain rfl := Option.some.inj hname
      have hfaulty : Faulty e := by
        rcases hleft with h | h
        · exact h.2
        · exact absurd h.2.1 hholds.1
      have hF : Stable e (fun f => f.name = .decrypted i)
          (fun t => Retaining e k i (some (.decrypted i)) t ∧ k ≤ t.drawn) :=
        (stable_retaining (by simp [canonicalLock])).and stable_drawn
      refine ((touches_closeConnection (fun _ _ => rfl) hknown).frame_meets
        (meets_closeConnection (E := fun _ _ => False) : Meets (Holds e (.decrypted i) db) _ _ _ _)
        hF fun _ ht => ht.2).mono
          (fun t ht => ht.1.1.guarded (.inl ⟨ht.2, hfaulty⟩)) ?_
          (fun _ t ht => ⟨ht.1.1, .inl ⟨ht.2, hfaulty⟩⟩) fun _ _ ht => ht.2.elim
      rintro t rfl
      obtain ⟨paths, hbase, hpaths⟩ := hretaining
      exact ⟨⟨⟨paths, hbase, hpaths⟩, hbase.2⟩, hholds⟩
  · refine Meets.bind (Q := fun _ s => Retaining e k i connection s ∧ Left e i db s)
      (Meets.pure fun _ => id) fun _ => Meets.update (fun s hs => ?_) fun s hs => ?_
    · obtain ⟨⟨paths, hbase, hpaths⟩, hleft⟩ := hs
      rcases hleft with ⟨hholds, -⟩ | ⟨hsealed, -⟩
      · exact .inr ⟨_, hbase.1.1.2.1, hholds, hbase.1.2, .inr ⟨_, hbase.1.1.2.1, rfl⟩⟩
      · exact .inl hsealed
    · obtain ⟨⟨paths, hbase, hpaths⟩, hleft⟩ := hs
      refine ⟨⟨paths, ⟨⟨hbase.1.1.1, hbase.1.1.2.1, ?_⟩, hbase.1.2⟩, hknown.mono hbase.2, hpaths⟩,
        hleft⟩
      show s.stores.eraseIdx 0 = []
      rw [hbase.1.1.2.2]
      rfl

/-- The store is dropped after a closing that worked. -/
theorem meets_dropClosed {E : EncryptedStoreError → State → Prop} :
    Meets (Guarded e db)
      (fun s => (Base e none [openedStore i none] s ∧ s.locked canonicalLock = true) ∧
        Sealed e db s ∧ Gone (.decrypted i) s)
      (dropStore e 0) (fun _ s => Idle e s ∧ Sealed e db s ∧ Gone (.decrypted i) s) E := by
  let F : State → Prop := fun s => Base e none [openedStore i none] s ∧ Sealed e db s ∧
    Gone (.decrypted i) s
  have hF : Stable e (fun f => f = canonicalLock) F :=
    stable_base.and ((stable_sealed (by simp [canonicalFile, canonicalLock])).and
      (stable_gone fun part _ => by simp [canonicalLock]))
  refine Meets.bind (Q := fun found s => found = some (openedStore i none) ∧ F s)
    (Meets.inspect fun s hs => ⟨?_, hs.1.1, hs.2⟩) fun found => Meets.of_and ?_
  · rw [hs.1.1.2.2]
    rfl
  rintro rfl
  refine Meets.bind (Q := fun _ => F) (Meets.pure fun _ hs => hs) fun _ => ?_
  have hdrop : Meets F F ((⟨canonicalLock⟩ : DbLock).drop : Prog State EncryptedStoreError Unit)
      (fun _ s => F s ∧ s.locked canonicalLock = false) E :=
    meets_drop hF (fun _ _ => Nat.zero_le _) (known_canonical 0)
  refine Meets.bind (Q := fun _ s => F s ∧ s.locked canonicalLock = false)
    (hdrop.mono (fun _ hs => .inl hs.2.1) (fun _ => id) (fun _ _ => id) fun _ _ => id)
    fun _ => Meets.update (fun s hs => .inl hs.1.2.1) fun s hs => ?_
  refine ⟨⟨⟨hs.1.1.1, hs.1.1.2.1, ?_⟩, hs.2⟩, hs.1.2⟩
  show s.stores.eraseIdx 0 = []
  rw [hs.1.1.2.2]
  rfl

/-- Closing a store. -/
theorem meets_closeStore (hc : e.crypto.Correct) (hknown : Known e k (.decrypted i)) :
    Meets (Guarded e db)
      (fun s => Closing e k i (some (.decrypted i)) s ∧ Holds e (.decrypted i) db s)
      (closeStore e 0 (openedStore i (some (.decrypted i))))
      (fun _ s => Idle e s ∧ Sealed e db s ∧ Gone (.decrypted i) s)
      fun _ s => Retained e i s ∧ Left e i db s := by
  refine Meets.bind (Meets.attempt (meets_closeStoreInner hc hknown)) fun r => ?_
  cases r with
  | ok _ => exact meets_dropClosed
  | error error =>
    refine Meets.pre (P := fun s => ∃ connection, (Closing e k i connection s ∧
      Left e i db s ∧ Remembers e error s) ∧ (connection = none ∨
        connection = some (.decrypted i) ∧ Holds e (.decrypted i) db s))
      (Meets.of_exists fun connection => ?_) fun s hs => ?_
    · have hretained (s : State) (hs : (Closing e k i connection s ∧ Left e i db s ∧
          Remembers e error s) ∧ (connection = none ∨
            connection = some (.decrypted i) ∧ Holds e (.decrypted i) db s)) :
          (Retaining e k i connection (s.retainFailedClose 0 error) ∧
            Left e i db (s.retainFailedClose 0 error)) ∧ (connection = none ∨
              connection = some (.decrypted i) ∧
                Holds e (.decrypted i) db (s.retainFailedClose 0 error)) := by
        have hfiles : (s.retainFailedClose 0 error).files = s.files := by
          simp only [State.retainFailedClose, hs.1.1.1.1.2.2]
          rfl
        refine ⟨⟨retaining_of_closeFailed hs.1.1 hs.1.2.2, ?_⟩, ?_⟩
        · rw [Left, Holds, Sealed, State.main, State.wal, hfiles]
          exact hs.1.2.1
        · rw [Holds, State.main, State.wal, hfiles]
          exact hs.2
      have hretain : Meets (Guarded e db) (fun s => (Closing e k i connection s ∧ Left e i db s ∧
          Remembers e error s) ∧ (connection = none ∨
            connection = some (.decrypted i) ∧ Holds e (.decrypted i) db s))
          (retainFailedClose 0 error)
          (fun _ s => (Retaining e k i connection s ∧ Left e i db s) ∧ (connection = none ∨
            connection = some (.decrypted i) ∧ Holds e (.decrypted i) db s))
          fun (_ : EncryptedStoreError) s => Retained e i s ∧ Left e i db s :=
        Meets.update (fun s hs => (hretained s hs).1.1.guarded (hretained s hs).1.2) hretained
      exact hretain.bind fun _ => (meets_dropRetaining hknown).bind fun _ => Meets.fail fun _ => id
    · obtain ⟨hremembers, hleft, connection, hclosing, hconnection⟩ := hs
      exact ⟨connection, ⟨hclosing, hleft, hremembers⟩, hconnection⟩

/-! ### Finalising -/

/-- A registration waits to be finalised. -/
def Waiting (e : Environment τ) (k i : ℕ) (paths : List FileName) (s : State) : Prop :=
  ((Base e (some (retainedTemp i paths)) [] s ∧ s.locked canonicalLock = true) ∧ k ≤ s.drawn) ∧
    Recoverable e paths s

theorem stable_recoverable {T : FileName → Prop} {paths : List FileName} :
    Stable e T (Recoverable e paths) :=
  fun _ _ h hs p hp => ⟨(hs p hp).1, (hs p hp).2.mono h.drawn⟩

theorem custody_waiting {paths : List FileName} : Custody e k i db (Waiting e k i paths) where
  stable _ hlock := ((stable_base.and (stable_locked hlock)).and stable_drawn).and
    stable_recoverable
  guarded _ hs hholds := .inr ⟨_, hs.1.1.1.2.1, hholds, hs.1.1.2, .inr ⟨_, hs.1.1.1.2.1, rfl⟩⟩
  drawn _ hs := hs.1.2
  fresh _ hs := hs.1.1.1.1

theorem Waiting.retained {paths : List FileName} {s : State} (h : Waiting e k i paths s)
    (hknown : Known e k (.decrypted i)) : Retained e i s :=
  ⟨paths, h.1.1, hknown.mono h.1.2, h.2⟩

section Finalise

variable {paths : List FileName}

/-- An existing file may be taken for a missing one when the system fails, but not the converse. -/
theorem meets_pathExists {ε : Type} {E : ε → State → Prop} {P : State → Prop} {f : FileName}
    {there : Bool} (hP : ∀ s, P s → (s.files f).isSome = there) :
    Meets P P (pathExists e f)
      (fun found s => (found = there ∨ found = false ∧ Faulty e) ∧ P s) E := by
  have hmetadata : Meets P P
      (system e (.metadata f) (fun s => (.ok (s.files f).isSome, s)) fun _ s => s)
      (fun found s => found = there ∧ P s) fun _ s => Faulty e ∧ P s :=
    Meets.perform (fun _ hs => hs) (fun s hs => ⟨hP s hs, hs⟩)
      fun n fault s hfault hs => ⟨hs, ⟨_, id, n, fault, hfault⟩, hs⟩
  refine Meets.bind (Meets.attempt hmetadata) fun r => ?_
  cases r with
  | ok found => exact Meets.pure fun s hs => ⟨.inl hs.1, hs.2⟩
  | error error => exact Meets.pure fun s hs => ⟨.inr ⟨rfl, hs.1⟩, hs.2⟩

theorem meets_checkpointTemp (hknown : Known e k (.decrypted i)) :
    Meets (Guarded e db) (fun s => Waiting e k i paths s ∧ Holds e (.decrypted i) db s)
      (checkpointTemp e (.decrypted i))
      (fun _ s => Waiting e k i paths s ∧ Flat e (.decrypted i) db s)
      fun _ s => (Waiting e k i paths s ∧ Holds e (.decrypted i) db s) ∧ Faulty e := by
  have hW : Custody e k i db (Waiting e k i paths) := custody_waiting
  refine Meets.bind (hW.open hknown) fun _ => Meets.bind (Meets.attempt (hW.checkpoint hknown))
    fun r => ?_
  cases r with
  | ok _ => exact hW.closeConnection_flat hknown
  | error error =>
    refine Meets.of_forall fun s hs => ?_
    refine Meets.bind (Q := fun _ t => (Waiting e k i paths t ∧ Holds e (.decrypted i) db t) ∧
      Faulty e) (((hW.closeConnection hknown (E := fun _ _ => False)).mono (fun _ => id) ?_
        (fun _ t ht => ⟨ht, hs.2⟩) fun _ _ => False.elim)) fun _ => Meets.fail fun _ => id
    rintro t rfl
    exact hs.1

/-- The recovery copy of a transition that fails is remembered. -/
theorem meets_transitionRegistered (hknown : Known e k (.decrypted i)) {raw : Bytes}
    (henvelope : Envelope e db raw) :
    Meets (Guarded e db) (fun s => Waiting e k i paths s ∧ Flat e (.decrypted i) db s)
      (transitionRegistered e raw)
      (fun _ s => (Waiting e k i paths s ∧ Flat e (.decrypted i) db s) ∧ Sealed e db s)
      fun _ s => Retained e i s ∧ Left e i db s := by
  have hW : Custody e k i db (Waiting e k i paths) := custody_waiting
  refine Meets.bind (Meets.attempt (hW.publish henvelope)) fun r => ?_
  cases r with
  | ok _ => exact Meets.pure fun _ => id
  | error error =>
    have hremember (s : State) (hs : (Waiting e k i paths s ∧ Flat e (.decrypted i) db s) ∧
        Remembers e error s ∧ Faulty e) :
        Retained e i { s with encryptedTemps := s.encryptedTemps.map (·.remember error) } ∧
          Holds e (.decrypted i) db s ∧ Faulty e := by
      obtain ⟨⟨hwaiting, hflat⟩, hremembers, hfaulty⟩ := hs
      obtain ⟨paths', hpaths', hrecoverable⟩ := remember_retainedTemp (i := i) hwaiting.2 hremembers
      refine ⟨⟨paths', ⟨⟨hwaiting.1.1.1.1, ?_, hwaiting.1.1.1.2.2⟩, hwaiting.1.1.2⟩,
        hknown.mono hwaiting.1.2, hrecoverable⟩, hflat.1, hfaulty⟩
      show s.encryptedTemps.map _ = _
      rw [hwaiting.1.1.1.2.1, Option.map_some, hpaths']
    refine Meets.bind (Q := fun _ s => Retained e i s ∧ Left e i db s)
      (Meets.update (fun s hs => ?_) fun s hs => ?_) fun _ => Meets.fail fun _ => id
    · obtain ⟨⟨paths', hbase, -⟩, hholds, -⟩ := hremember s hs
      exact .inr ⟨_, hbase.1.2.1, hholds, hbase.2, .inr ⟨_, hbase.1.2.1, rfl⟩⟩
    · obtain ⟨hretained, hleft⟩ := hremember s hs
      exact ⟨hretained, .inl hleft⟩

/-- Finalising a store whose decrypted database is there. -/
theorem meets_finaliseOne (hc : e.crypto.Correct) (hknown : Known e k (.decrypted i)) :
    Meets (Guarded e db) (fun s => Waiting e k i paths s ∧ Holds e (.decrypted i) db s)
      (finaliseOne e (retainedTemp i paths))
      (fun _ s => Idle e s ∧ Sealed e db s ∧ Gone (.decrypted i) s)
      fun _ s => Retained e i s ∧ Left e i db s := by
  have hW : Custody e k i db (Waiting e k i paths) := custody_waiting
  have hfailed {s : State} (hs : Waiting e k i paths s) (hholds : Holds e (.decrypted i) db s)
      (hfaulty : Faulty e) : Retained e i s ∧ Left e i db s :=
    ⟨hs.retained hknown, .inl ⟨hholds, hfaulty⟩⟩
  refine Meets.bind (hW.masterKey.post (fun _ _ => id) fun _ s hs =>
    hfailed hs.2.1.1 hs.2.1.2 hs.2.2) fun key => Meets.of_and ?_
  rintro rfl
  refine Meets.bind ((meets_pathExists fun s (hs : Waiting e k i paths s ∧
    Holds e (.decrypted i) db s) => Option.isSome_iff_ne_none.mpr hs.2.1).mono
      (fun s hs => hW.guarded s hs.1 hs.2) (fun _ => id) (fun _ _ => id) fun _ _ => id)
    fun found => Meets.of_and fun hfound => ?_
  cases found with
  | false =>
    refine Meets.fail fun s hs => hfailed hs.1 hs.2 ?_
    rcases hfound with h | h
    · cases h
    · exact h.2
  | true =>
    refine Meets.bind (Meets.mapError (meets_checkpointTemp hknown) fun _ s hs =>
      hfailed hs.1.1 hs.1.2 hs.2) fun _ => ?_
    refine Meets.bind (Meets.mapError hW.read fun _ s hs => hfailed hs.1.1 hs.1.2.1 hs.2)
      fun plain => Meets.of_and fun hview => ?_
    refine Meets.bind (Meets.mapError (hW.encrypt hc hview) fun _ s hs =>
      hfailed hs.1.1 hs.1.2.1 hs.2) fun raw => Meets.of_and fun henvelope => ?_
    refine Meets.bind (meets_transitionRegistered hknown henvelope) fun _ => ?_
    refine Meets.bind (Meets.mapError (hW.cleanupRecovery.pre fun s hs => ⟨hs.1.1.2, hs⟩)
      fun _ s hs => hfailed hs.1.1 hs.1.2.1 hs.2) fun _ => ?_
    refine Meets.bind (Meets.mapError hW.removeSiblings fun _ s hs =>
      hfailed hs.1.1 hs.1.2.1 hs.2) fun _ => ?_
    refine Meets.bind (Meets.mapError (hW.cleanup hknown) fun _ s hs =>
      ⟨hs.1.retained hknown, hs.2⟩) fun _ => ?_
    exact (meets_unregisterSealed (r := retainedTemp i paths) rfl rfl (.inr rfl) hknown).mono
      (fun _ => id) (fun s hs => ⟨hs.1.1.1, hs.1.2, hs.2⟩)
      (fun _ s hs => ⟨⟨hs.1.1, hs.1.2⟩, hs.2⟩) fun _ _ => id

/-- Without its decrypted database, a registration is never finalised. -/
theorem meets_finaliseOne_gone {F : State → Prop} (hF : Stable e (fun _ => False) F)
    {r : RegisteredTemp} :
    Meets F (fun s => F s ∧ s.files ⟨r.tmpPath, .main⟩ = none) (finaliseOne e r)
      (fun _ _ => False) fun _ s => F s ∧ s.files ⟨r.tmpPath, .main⟩ = none := by
  have hG : Stable e (fun _ => False) fun s => F s ∧ s.files ⟨r.tmpPath, .main⟩ = none :=
    hF.and (stable_file id)
  have hkeeps {ε α : Type} {m : Prog State ε α} (h : Touches e 0 (fun _ => False) m) :
      Keeps (fun s => F s ∧ s.files ⟨r.tmpPath, .main⟩ = none) m :=
    h.keeps hG fun _ _ => Nat.zero_le _
  refine Meets.bind ((hkeeps touches_currentMasterKey).mono (fun _ hs => hs.1) (fun _ => id)
    (fun _ _ => id) fun _ _ => id) fun key => ?_
  have hnone (s : State) (hs : F s ∧ s.files ⟨r.tmpPath, .main⟩ = none) :
      (s.files ⟨r.tmpPath, .main⟩).isSome = false := by
    rw [hs.2]
    rfl
  refine Meets.bind ((meets_pathExists hnone).mono (fun _ hs => hs.1) (fun _ => id)
    (fun _ _ => id) fun _ _ => id) fun found => Meets.of_and fun hfound => ?_
  obtain rfl : found = false := hfound.elim id And.left
  exact Meets.fail fun _ => id

end Finalise

end Closing

end EraseMe.EncryptedStore
