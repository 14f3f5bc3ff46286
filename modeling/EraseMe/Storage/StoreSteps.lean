import EraseMe.Storage.StoreFrame

/-!
# What the steps of an encrypted store do

For each step, what it achieves and what its error says: every error but those that the state
excludes is a fault of an operation.  `Holds` is about a database on the disk, `Sealed` about the
canonical envelope.
-/

namespace EraseMe.EncryptedStore

open Encryption Faulty Faulty.Prog

variable {τ : Type} {e : Environment τ}

/-- The operation fails at some time. -/
def Fails (e : Environment τ) (o : Operation) : Prop := ∃ n fault, e.faults n o = some fault

/-- The removal of a sidecar of a decrypted database. -/
def Sidecar : Operation → Prop
  | .remove ⟨.decrypted _, .wal⟩ => True
  | .remove ⟨.decrypted _, .shm⟩ => True
  | _ => False

/-- Some operation fails, and not only the removal of a sidecar. -/
def Faulty (e : Environment τ) : Prop := ∃ o, ¬ Sidecar o ∧ Fails e o

/-- A specification of the end only. -/
abbrev Yields {ε α : Type} (P : State → Prop) (m : Prog State ε α) (Q : α → State → Prop)
    (E : ε → State → Prop) : Prop :=
  Meets (fun _ => True) P m Q E

/-- Changes of files in `T` do not matter for `F`. -/
def Stable (e : Environment τ) (T : FileName → Prop) (F : State → Prop) : Prop :=
  ∀ s t, Agree e T s t → F s → F t

/-- The database that a file and its log hold. -/
def Holds (e : Environment τ) (name : Name) (db : List τ) (s : State) : Prop :=
  s.files ⟨name, .main⟩ ≠ none ∧ e.database.view (s.main name) (s.wal name) = some db

/-- The same, and the log is empty. -/
def Flat (e : Environment τ) (name : Name) (db : List τ) (s : State) : Prop :=
  Holds e name db s ∧ s.wal name = []

/-- An envelope of a database, as `encryptV3` writes them. -/
def Envelope (e : Environment τ) (db : List τ) (raw : Bytes) : Prop :=
  (∃ plain, decryptAny e.crypto raw e.masterKey = .ok plain ∧
    e.database.view plain [] = some db) ∧ isLegacy raw = false

/-- The canonical file is an envelope of the database. -/
def Sealed (e : Environment τ) (db : List τ) (s : State) : Prop :=
  ∃ raw, s.files canonicalFile = some raw ∧ Envelope e db raw

section Stable

variable {T : FileName → Prop} {F G : State → Prop} {name : Name} {db : List τ}

theorem Stable.and (hF : Stable e T F) (hG : Stable e T G) : Stable e T fun s => F s ∧ G s :=
  fun s t h hs => ⟨hF s t h hs.1, hG s t h hs.2⟩

theorem Stable.mono {T' : FileName → Prop} (hF : Stable e T F) (hT : ∀ f, T' f → T f) :
    Stable e T' F :=
  fun s t h => hF s t (h.mono hT)

theorem stable_file {f : FileName} {content : Option Bytes} (hf : ¬ T f) :
    Stable e T fun s => s.files f = content :=
  fun _ _ h hs => (h.same f hf).1.trans hs

theorem stable_locked {f : FileName} {held : Bool} (hf : ¬ T f) :
    Stable e T fun s => s.locked f = held :=
  fun _ _ h hs => (h.same f hf).2.trans hs

theorem stable_main (hmain : ¬ T ⟨name, .main⟩) {s t : State} (h : Agree e T s t) :
    t.main name = s.main name := by
  rw [State.main, (h.same _ hmain).1, State.main]

theorem stable_wal (hwal : ¬ T ⟨name, .wal⟩) {s t : State} (h : Agree e T s t) :
    t.wal name = s.wal name := by
  rw [State.wal, (h.same _ hwal).1, State.wal]

theorem stable_holds (hmain : ¬ T ⟨name, .main⟩) (hwal : ¬ T ⟨name, .wal⟩) :
    Stable e T (Holds e name db) := by
  intro s t h hs
  rw [Holds, (h.same _ hmain).1, stable_main hmain h, stable_wal hwal h]
  exact hs

theorem stable_flat (hmain : ¬ T ⟨name, .main⟩) (hwal : ¬ T ⟨name, .wal⟩) :
    Stable e T (Flat e name db) := by
  intro s t h hs
  refine ⟨stable_holds hmain hwal s t h hs.1, ?_⟩
  rw [stable_wal hwal h]
  exact hs.2

theorem stable_sealed (hcanonical : ¬ T canonicalFile) : Stable e T (Sealed e db) := by
  intro s t h hs
  rw [Sealed, (h.same _ hcanonical).1]
  exact hs

theorem stable_drawn {k : ℕ} : Stable e T fun s => k ≤ s.drawn := fun _ _ h hs => hs.trans h.drawn

end Stable

section Frame

variable {ε α : Type} {k : ℕ} {T : FileName → Prop} {F P : State → Prop} {m : Prog State ε α}
  {Q : α → State → Prop} {E : ε → State → Prop}

theorem Touches.keeps (h : Touches e k T m) (hF : Stable e T F) (hk : ∀ s, F s → k ≤ s.drawn) :
    Keeps F m := by
  refine Meets.of_forall fun s hs => ?_
  have hlater : ∀ t, Agree e T s t → F t := fun t ht => hF s t ht hs
  exact Meets.mono (h s (hk s hs)) hlater (fun t (ht : t = s) => by rw [ht]; exact Agree.refl s)
    (fun _ => hlater) fun _ => hlater

/-- What a program does not touch is kept at every moment, beside what it does. -/
theorem Touches.frame (h : Touches e k T m) (hm : Yields P m Q E) (hF : Stable e T F)
    (hk : ∀ s, F s → k ≤ s.drawn) :
    Meets F (fun s => F s ∧ P s) m (fun a s => F s ∧ Q a s) fun error s => F s ∧ E error s :=
  ((h.keeps hF hk).and hm).mono (fun _ hs => hs.1) (fun _ => id) (fun _ _ => id) fun _ _ => id

/-- The same, beside what the program does at every moment. -/
theorem Touches.frame_meets {I : State → Prop} (h : Touches e k T m) (hm : Meets I P m Q E)
    (hF : Stable e T F) (hk : ∀ s, F s → k ≤ s.drawn) :
    Meets (fun s => F s ∧ I s) (fun s => F s ∧ P s) m (fun a s => F s ∧ Q a s)
      fun error s => F s ∧ E error s :=
  (h.keeps hF hk).and hm

theorem Touches.attempt_keeps {ε' : Type} {E₀ : ε' → State → Prop} (h : Touches e k T m)
    (hF : Stable e T F) (hk : ∀ s, F s → k ≤ s.drawn) :
    Yields F (Prog.attempt m : Prog State ε' (Except ε α)) (fun _ => F) E₀ :=
  (Meets.attempt ((h.keeps hF hk).mono (fun _ _ => trivial) (fun _ => id) (fun _ _ => id)
    fun _ _ => id)).post (fun r s hs => by cases r <;> exact hs) fun _ _ => id

theorem Touches.yields (h : Touches e k T m) (hm : Yields P m Q E) (hF : Stable e T F)
    (hk : ∀ s, F s → k ≤ s.drawn) :
    Yields (fun s => F s ∧ P s) m (fun a s => F s ∧ Q a s) fun error s => F s ∧ E error s :=
  (h.frame hm hF hk).mono (fun _ _ => trivial) (fun _ => id) (fun _ _ => id) fun _ _ => id

end Frame

/-! ### The operating system -/

theorem yields_system {α : Type} {P : State → Prop} {Q : α → State → Prop}
    {E : IoError → State → Prop} {o : Operation} {effect : State → Except IoError α × State}
    {broken : ℕ → State → State} (heffect : ∀ s, P s → Ends Q E (effect s).1 (effect s).2)
    (hbroken : ∀ n message s, Fails e o → P s → E ⟨.other, message⟩ (broken n s)) :
    Yields P (system e o effect broken) Q E :=
  Meets.perform (fun _ _ => trivial) heffect fun n fault s hfault hs =>
    ⟨trivial, hbroken _ _ s ⟨n, fault, hfault⟩ hs⟩

section System

variable {P : State → Prop} {f : FileName}

theorem yields_quiet {o : Operation} (hside : ¬ Sidecar o) :
    Yields P (quiet e o) (fun _ => P) fun _ s => P s ∧ Faulty e :=
  yields_system (fun _ hs => hs) fun _ _ _ ho hs => ⟨hs, _, hside, ho⟩

theorem yields_createNew :
    Yields (fun s => s.files f = none) (createNew e f) (fun _ s => s.files f = some [])
      fun _ _ => Faulty e := by
  refine yields_system (fun s hs => ?_) fun _ _ _ ho _ => ⟨_, id, ho⟩
  rw [hs]
  exact s.files_put_self f (some [])

theorem yields_writeAll {bytes : Bytes} :
    Yields P (writeAll e f bytes) (fun _ s => s.files f = some bytes) fun _ _ => Faulty e :=
  yields_system (fun s _ => s.files_put_self f (some bytes))
    fun _ _ _ ho _ => ⟨_, id, ho⟩

theorem yields_readFile :
    Yields P (readFile e f) (fun bytes s => P s ∧ s.files f = some bytes)
      fun error s => P s ∧ (s.files f = none ∧ error.kind = .notFound ∨
        error.kind = .other ∧ Faulty e) := by
  refine yields_system (fun s hs => ?_) fun _ _ _ ho hs => ⟨hs, .inr ⟨rfl, _, id, ho⟩⟩
  cases hf : s.files f with
  | none => exact ⟨hs, .inl ⟨hf, rfl⟩⟩
  | some bytes => exact ⟨hs, hf⟩

theorem yields_rename {bytes : Bytes} {target : FileName} (hne : target ≠ f) :
    Yields (fun s => s.files f = some bytes) (rename e f target)
      (fun _ s => s.files target = some bytes) fun _ s => s.files f = some bytes ∧ Faulty e := by
  refine yields_system (fun s hs => ?_) fun _ _ _ ho hs => ⟨hs, _, id, ho⟩
  rw [hs]
  show ((s.put target (some bytes)).put f none).files target = some bytes
  rw [State.files_put_of_ne _ _ hne, State.files_put_self]

theorem yields_removeIfExists :
    Yields P (removeIfExists e f) (fun _ s => s.files f = none)
      fun _ s => P s ∧ Fails e (.remove f) := by
  have hremove : Yields P (removeFile e f) (fun _ s => s.files f = none)
      fun error s => error.kind = .notFound ∧ s.files f = none ∨
        error.kind = .other ∧ P s ∧ Fails e (.remove f) := by
    refine yields_system (fun s hs => ?_) fun _ _ _ ho hs => .inr ⟨rfl, hs, ho⟩
    cases hf : s.files f with
    | none => exact .inl ⟨rfl, hf⟩
    | some bytes => exact s.files_put_self f none
  refine hremove.attempt.bind fun r => ?_
  cases r with
  | ok _ => exact Meets.pure fun _ hs => hs
  | error error =>
    show Meets _ _ (if error.kind = .notFound then pure () else fail error) _ _
    split_ifs with hkind
    · refine Meets.pure fun s hs => ?_
      rcases hs with ⟨-, hs⟩ | ⟨hother, -⟩
      · exact hs
      · rw [hkind] at hother
        cases hother
    · refine Meets.fail fun s hs => ?_
      rcases hs with ⟨hfound, -⟩ | ⟨-, hs⟩
      · exact absurd hfound hkind
      · exact hs

end System

/-- A number that is drawn is new. -/
theorem yields_nextU64 {ε : Type} {E : ε → State → Prop} :
    Yields (Fresh e) (nextU64 e) (fun id s => ∃ n, id = e.id n ∧ n + 1 ≤ s.drawn ∧ Fresh e s ∧
      ∀ f : FileName, f.name.number = some id → s.files f = none ∧ s.locked f = false) E := by
  refine Meets.bind (Q := fun n s => n = s.drawn ∧ Fresh e s)
    (Meets.inspect fun s hs => ⟨rfl, hs⟩) fun n => ?_
  refine Meets.bind (Q := fun _ s => n + 1 ≤ s.drawn ∧ Fresh e s ∧
    ∀ f : FileName, f.name.number = some (e.id n) → s.files f = none ∧ s.locked f = false)
    (Meets.update (fun _ _ => trivial) ?_) fun _ => Meets.pure fun s hs => ⟨n, rfl, hs⟩
  rintro s ⟨rfl, hs⟩
  exact ⟨le_rfl, fun m hm f hf => hs m ((Nat.le_succ _).trans hm) f hf, hs _ le_rfl⟩

/-! ### Locks -/

/-- The lock is taken when it is free and stays with its holder otherwise. -/
theorem meets_acquire {name : Name} (held : Bool) :
    Meets (fun s => s.locked ⟨name, .lock⟩ = held ∨ held = false)
      (fun s => s.locked ⟨name, .lock⟩ = held) (DbLock.acquire e name)
      (fun lock s => held = false ∧ lock = tempLockOf name ∧ s.locked ⟨name, .lock⟩ = true)
      fun _ s => s.locked ⟨name, .lock⟩ = held ∧ (held = false → Faulty e) := by
  refine Meets.mapError (E := fun _ s => s.locked ⟨name, .lock⟩ = held ∧
    (held = false → Faulty e)) ?_ fun _ _ => id
  refine Meets.bind (Q := fun _ (s : State) => s.locked ⟨name, .lock⟩ = held)
    (Meets.perform (fun _ => .inl) (fun _ hs => hs) fun n fault _ hfault hs =>
      ⟨.inl hs, hs, fun _ => ⟨_, id, n, fault, hfault⟩⟩) fun _ => ?_
  refine Meets.bind (Q := fun _ s => held = false ∧ s.locked ⟨name, .lock⟩ = true)
    (Meets.perform (fun s hs => ?_) (fun s hs => ?_) fun n fault _ hfault hs =>
      ⟨.inl hs, hs, fun _ => ⟨_, id, n, fault, hfault⟩⟩) fun _ => Meets.pure fun s hs =>
        ⟨hs.1, rfl, hs.2⟩
  · cases held with
    | true =>
      rw [hs]
      exact .inl hs
    | false => exact .inr rfl
  · rw [hs]
    cases held with
    | true => exact ⟨hs, by simp⟩
    | false => exact ⟨rfl, s.locked_setLocked_self _ _⟩

/-! ### SQLite -/

section Sqlite

variable {name : Name} {db : List τ}

theorem holds_put {s : State} {file : Bytes} {log : Option Bytes}
    (h : e.database.view file (log.getD []) = some db) :
    Holds e name db ((s.put ⟨name, .main⟩ (some file)).put ⟨name, .wal⟩ log) := by
  have hmain : ((s.put ⟨name, .main⟩ (some file)).put ⟨name, .wal⟩ log).files ⟨name, .main⟩ =
      some file := by
    rw [State.files_put_of_ne _ _ (by simp), State.files_put_self]
  refine ⟨by rw [hmain]; simp, ?_⟩
  rw [State.main, hmain, State.wal, State.files_put_self]
  exact h

theorem holds_put_main {s : State} {file : Bytes}
    (h : e.database.view file (s.wal name) = some db) :
    Holds e name db (s.put ⟨name, .main⟩ (some file)) := by
  refine ⟨by rw [State.files_put_self]; simp, ?_⟩
  rw [State.main, State.files_put_self, State.wal, State.files_put_of_ne _ _ (by simp)]
  exact h

/-- What a failed opening or transaction leaves. -/
theorem holds_spill (n : ℕ) (s : State) (h : Holds e name db s) :
    Holds e name db ((s.put ⟨name, .main⟩
      (some (e.database.spill n (s.main name) (s.wal name)).1)).put ⟨name, .wal⟩
        (some (e.database.spill n (s.main name) (s.wal name)).2)) :=
  holds_put ((e.database.view_spill _ _ _).trans h.2)

theorem holds_put_shm {s : State} {content : Option Bytes} (h : Holds e name db s) :
    Holds e name db (s.put ⟨name, .shm⟩ content) := by
  have hmain : (s.put ⟨name, .shm⟩ content).files ⟨name, .main⟩ = s.files ⟨name, .main⟩ :=
    s.files_put_of_ne _ (by simp)
  have hwal : (s.put ⟨name, .shm⟩ content).files ⟨name, .wal⟩ = s.files ⟨name, .wal⟩ :=
    s.files_put_of_ne _ (by simp)
  rw [Holds, State.main, State.wal, hmain, hwal]
  exact h

theorem yields_open {found : Option (List τ)} :
    Yields (fun s => e.database.view (s.main name) (s.wal name) = found) (Store.open e name)
      (fun _ s => ∃ db, found = some db ∧ Holds e name db s)
      fun _ _ => found ≠ none → Faulty e := by
  refine Meets.perform (fun _ _ => trivial) (fun s hs => ?_)
    fun n fault s hfault _ => ⟨trivial, fun _ => ⟨_, id, n, fault, hfault⟩⟩
  rw [hs]
  cases found with
  | none => exact fun h => absurd rfl h
  | some db =>
    refine ⟨db, rfl, holds_put_shm (holds_put ?_)⟩
    exact (e.database.view_prepare _ _).trans hs

/-- Opening keeps what a database holds. -/
theorem meets_open :
    Meets (Holds e name db) (Holds e name db) (Store.open e name) (fun _ => Holds e name db)
      fun _ s => Holds e name db s ∧ Faulty e := by
  have hopened (s : State) (hs : Holds e name db s) :
      Holds e name db (((s.put ⟨name, .main⟩
        (some (e.database.prepare (s.main name) (s.wal name)).1)).put ⟨name, .wal⟩
          (some (e.database.prepare (s.main name) (s.wal name)).2)).put ⟨name, .shm⟩ (some [])) :=
    holds_put_shm (holds_put ((e.database.view_prepare _ _).trans hs.2))
  refine Meets.perform (fun s hs => ?_) (fun s hs => ?_) fun n fault s hfault hs => ?_
  · rw [hs.2]
    exact hopened s hs
  · rw [hs.2]
    exact hopened s hs
  · have hspilled := holds_spill fault.residue s hs
    exact ⟨hspilled, hspilled, _, id, n, fault, hfault⟩

theorem meets_checkpointWal :
    Meets (Holds e name db) (Holds e name db) (checkpointWal e name) (fun _ => Flat e name db)
      fun _ s => Holds e name db s ∧ Faulty e := by
  have hmerged (s : State) (hs : Holds e name db s) : Holds e name db
      ((s.put ⟨name, .main⟩ (some (e.database.checkpoint (s.main name) (s.wal name)))).put
        ⟨name, .wal⟩ (some [])) :=
    holds_put ((e.database.view_checkpoint _ _).trans hs.2)
  refine Meets.perform hmerged (fun s hs => ⟨hmerged s hs, ?_⟩) fun n fault s hfault hs => ?_
  · show (((s.put _ _).put ⟨name, .wal⟩ (some [])).files ⟨name, .wal⟩).getD [] = []
    rw [State.files_put_self, Option.getD_some]
  · have hcopied := holds_put_main (s := s)
      ((e.database.view_copied fault.residue _ _).trans hs.2)
    exact ⟨hcopied, hcopied, _, id, n, fault, hfault⟩

/-- Closing a connection keeps what the database holds. -/
theorem meets_closeConnection {ε : Type} {E : ε → State → Prop} :
    Meets (Holds e name db) (Holds e name db) (closeConnection e name)
      (fun _ => Holds e name db) E := by
  refine Meets.bind (Q := fun _ => Holds e name db) ?_ fun _ => Meets.pure fun _ => id
  have hclose : Keeps (Holds e name db) (perform e.faults (.sqliteClose name)
      (fun s => ((.ok () : Except String Unit), ((s.put ⟨name, .main⟩
        (some (e.database.checkpoint (s.main name) (s.wal name)))).put ⟨name, .wal⟩ none).put
          ⟨name, .shm⟩ none))
      fun fault s => (fault.message, s.put ⟨name, .main⟩
        (some (e.database.copied fault.residue (s.main name) (s.wal name))))) :=
    Keeps.perform
      (fun s hs => holds_put_shm (holds_put ((e.database.view_checkpoint _ _).trans hs.2)))
      fun fault s hs => holds_put_main ((e.database.view_copied _ _ _).trans hs.2)
  exact (Meets.attempt hclose).post (fun r s hs => by cases r <;> exact hs) fun _ _ => id

/-- A log that is empty stays so. -/
theorem meets_closeConnection_flat {ε : Type} {E : ε → State → Prop} :
    Meets (Holds e name db) (Flat e name db) (closeConnection e name)
      (fun _ => Flat e name db) E := by
  have hwal : Yields (fun s => s.wal name = []) (closeConnection e name)
      (fun _ s => s.wal name = []) E := by
    refine Meets.bind (Q := fun _ s => s.wal name = []) ?_ fun _ => Meets.pure fun _ => id
    refine (Meets.attempt (Q := fun _ s => s.wal name = []) (E := fun _ s => s.wal name = [])
      (Meets.perform (fun _ _ => trivial) (fun s hs => ?_)
        fun n fault s _ hs => ⟨trivial, ?_⟩)).post (fun r s hs => ?_) fun _ _ => id
    · show ((((s.put _ _).put ⟨name, .wal⟩ none).put ⟨name, .shm⟩ none).files
        ⟨name, .wal⟩).getD [] = []
      rw [State.files_put_of_ne _ _ (by simp), State.files_put_self, Option.getD_none]
    · show ((s.put ⟨name, .main⟩ _).files ⟨name, .wal⟩).getD [] = []
      rw [State.files_put_of_ne _ _ (by simp)]
      exact hs
    · cases r <;> exact hs
  exact (meets_closeConnection (E := E).and hwal).mono (fun _ hs => hs.1) (fun _ hs => hs)
    (fun _ _ hs => hs) fun _ _ hs => hs.1

/-- A commit adds its transaction, or changes nothing. -/
theorem meets_commitTransaction {tx : τ} :
    Meets (fun s => Holds e name db s ∨ Holds e name (db ++ [tx]) s) (Holds e name db)
      (commitTransaction e name tx) (fun _ => Holds e name (db ++ [tx]))
      fun _ => Holds e name db := by
  have hcommitted (s : State) (hs : Holds e name db s) : Holds e name (db ++ [tx])
      ((s.put ⟨name, .main⟩ (some (e.database.commit (s.main name) (s.wal name) tx).1)).put
        ⟨name, .wal⟩ (some (e.database.commit (s.main name) (s.wal name) tx).2)) :=
    holds_put (e.database.view_commit _ _ tx db hs.2)
  refine Meets.perform (fun s hs => .inr (hcommitted s hs)) hcommitted fun n fault s _ hs => ?_
  have hspilled := holds_spill fault.residue s hs
  exact ⟨.inl hspilled, hspilled⟩

/-- The file of a database with an empty log is all of it. -/
theorem Flat.view_file {s : State} {bytes : Bytes} (h : Flat e name db s)
    (hbytes : s.files ⟨name, .main⟩ = some bytes) : e.database.view bytes [] = some db := by
  have hview := h.1.2
  rw [h.2, State.main, hbytes] at hview
  exact hview

end Sqlite

/-! ### Keys and envelopes -/

theorem yields_currentMasterKey {P : State → Prop} :
    Yields P (currentMasterKey e) (fun key s => key = e.masterKey ∧ P s)
      fun error s => error = .masterKeyUnavailable ∧ P s ∧ Faulty e :=
  Meets.mapError (E := fun _ s => P s ∧ Faulty e)
    (yields_system (fun _ hs => ⟨rfl, hs⟩) fun _ _ _ ho hs => ⟨hs, _, id, ho⟩)
    fun _ _ hs => ⟨rfl, hs⟩

theorem yields_fillBytes {bytes : ℕ → Bytes} {P : State → Prop} {R : Bytes → Prop}
    (h : ∀ n, R (bytes n)) :
    Yields P (fillBytes e bytes) (fun b _ => R b) fun _ _ => Faulty e :=
  Meets.mapError (E := fun _ _ => Faulty e)
    (yields_system (fun s _ => h s.drawn) fun _ _ _ ho _ => ⟨_, id, ho⟩) fun _ _ => id

/-- The version of an envelope excludes the older headers. -/
theorem header_of_detectVersion {raw : Bytes} (h : detectVersion raw = some .v3) :
    v1Header.isPrefixOf raw = false ∧ v2Header.isPrefixOf raw = false := by
  have hv3 : v3Header.isPrefixOf raw = true := by
    by_contra h3
    rw [detectVersion, if_neg h3] at h
    split_ifs at h
    all_goals cases h
  have hother (header : Bytes) (hlen : header.length = v3Header.length) (hne : header ≠ v3Header) :
      header.isPrefixOf raw = false := by
    rw [Bool.eq_false_iff]
    intro hprefix
    have hle := List.prefix_of_prefix_length_le (List.isPrefixOf_iff_prefix.mp hprefix)
      (List.isPrefixOf_iff_prefix.mp hv3) hlen.le
    exact hne (hle.eq_of_length hlen)
  exact ⟨hother v1Header (by decide) (by decide),
    hother v2Header (by decide) (by decide)⟩

/-- What is encrypted can be decrypted. -/
theorem yields_encryptV3 (hc : e.crypto.Correct) {plaintext : Bytes} {P : State → Prop} :
    Yields P (encryptV3 e plaintext e.masterKey)
      (fun raw _ => ∀ db, e.database.view plaintext [] = some db → Envelope e db raw)
      fun _ _ => Faulty e := by
  have hvalid : validateMasterKey e.masterKey = .ok () := by
    rw [validateMasterKey, if_pos e.length_masterKey]
  refine Meets.bind (Q := fun _ _ => True) (Meets.ofExcept fun s _ => ?_) fun _ => ?_
  · rw [hvalid]
    trivial
  refine Meets.bind (yields_fillBytes (R := fun b => b.length = v3SaltLen) e.length_salt)
    fun salt => ?_
  refine Meets.bind (Q := fun iv _ => salt.length = v3SaltLen ∧ iv.length = fernetIvLen)
    (Meets.of_forall fun s hsalt => ?_) fun iv => ?_
  · exact (yields_fillBytes (R := fun b => b.length = fernetIvLen) e.length_iv).post
      (fun iv _ hiv => ⟨hsalt, hiv⟩) fun _ _ => id
  refine Meets.bind (Q := fun _ _ => salt.length = v3SaltLen ∧ iv.length = fernetIvLen)
    (Meets.mapError (E := fun _ _ => Faulty e)
      (yields_system (fun _ hs => hs) fun _ _ _ ho _ => ⟨_, id, ho⟩) fun _ _ => id)
    fun timestamp => Meets.ofExcept fun s hs => ?_
  obtain ⟨hsalt, hiv⟩ := hs
  obtain ⟨-, -, -, raw, hraw, hplain, hversion, hlegacy⟩ := decryptAny_envelope e.crypto hc .v3
    plaintext e.masterKey salt iv (List.replicate 12 0) timestamp e.length_masterKey hsalt hiv
    (List.length_replicate ..)
  rw [hraw]
  intro db hdb
  obtain ⟨hv1, hv2⟩ := header_of_detectVersion hversion
  refine ⟨⟨plaintext, hplain, hdb⟩, ?_⟩
  rw [isLegacy, hv1, hv2, hlegacy, Bool.or_false, Bool.or_false, Bool.and_false]

theorem Envelope.ne_nil {db : List τ} {raw : Bytes} (h : Envelope e db raw) : raw ≠ [] := by
  rintro rfl
  obtain ⟨⟨plain, hplain, -⟩, -⟩ := h
  have hnone : detectVersion [] = none := by decide
  rw [decryptAny, hnone] at hplain
  cases hplain

theorem Envelope.isEncrypted {db : List τ} {raw : Bytes} (h : Envelope e db raw) :
    isEncrypted raw = true := by
  obtain ⟨⟨plain, hplain, -⟩, -⟩ := h
  unfold EncryptedStore.isEncrypted
  cases hversion : detectVersion raw with
  | some _ => rfl
  | none =>
    rw [decryptAny, hversion] at hplain
    cases hplain

/-! ### Replacing the canonical file -/

/-- The recovery path of an error, if any, is a file of a transition with a known number. -/
def Remembers (e : Environment τ) (error : EncryptedStoreError) (s : State) : Prop :=
  ∀ p, recoveryPath error = some p → Transit p ∧ Known e s.drawn p.name

theorem yields_writeReplacement {f : FileName} {ciphertext : Bytes} :
    Yields (fun s => s.files f = none) (writeReplacement e f ciphertext)
      (fun _ s => s.files f = some ciphertext) fun _ _ => Faulty e := by
  refine yields_createNew.bind fun _ => ?_
  refine Meets.bind (Q := fun _ _ => True)
    ((yields_quiet id).post (fun _ _ _ => trivial) fun _ _ hs => hs.2) fun _ => ?_
  exact yields_writeAll.bind fun _ => (yields_quiet id).post (fun _ _ => id) fun _ _ hs => hs.2

/-- A transition replaces the canonical file, or fails and remembers what it leaves. -/
theorem yields_atomicTransition {ciphertext : Bytes} :
    Yields (Fresh e) (atomicTransitionWithRecovery e canonicalFile ciphertext)
      (fun _ s => s.files canonicalFile = some ciphertext)
      fun error s => Remembers e error s ∧ Faulty e := by
  refine Meets.bind (Q := fun _ => Fresh e) (Meets.mapError (E := fun _ s => Fresh e s ∧ Faulty e)
    (yields_quiet id) fun error s hs => ⟨fun p hp => (by cases hp), hs.2⟩) fun _ => ?_
  refine yields_nextU64.bind fun id => Meets.of_forall fun s₀ hs₀ => ?_
  obtain ⟨n, rfl, hn, -, hnew⟩ := hs₀
  have hkw : Known e (n + 1) (.writing (e.id n)) := known_of_number rfl
  have hkr : Known e (n + 1) (.recovery (e.id n)) := known_of_number rfl
  -- Every error from here on names a file with the number that has just been drawn.
  have hremembers (error : EncryptedStoreError) (t : State) (ht : n + 1 ≤ t.drawn)
      (herror : recoveryPath error = none ∨
        recoveryPath error = some ⟨.writing (e.id n), .main⟩ ∨
        recoveryPath error = some ⟨.recovery (e.id n), .main⟩) : Remembers e error t := by
    intro p hp
    rw [hp] at herror
    rcases herror with h | h | h
    · cases h
    · rw [Option.some.inj h]
      exact ⟨⟨_, .inl rfl⟩, hkw.mono ht⟩
    · rw [Option.some.inj h]
      exact ⟨⟨_, .inr rfl⟩, hkr.mono ht⟩
  have htail (error : EncryptedStoreError) (herror : recoveryPath error = none ∨
      recoveryPath error = some ⟨.writing (e.id n), .main⟩ ∨
      recoveryPath error = some ⟨.recovery (e.id n), .main⟩) :
      Yields (fun s => n + 1 ≤ s.drawn ∧ Faulty e) (fail error : Prog State _ Unit)
        (fun _ s => s.files canonicalFile = some ciphertext)
        fun error s => Remembers e error s ∧ Faulty e :=
    Meets.fail fun s hs => ⟨hremembers error s hs.1 herror, hs.2⟩
  have hstable {T : FileName → Prop} : Stable e T fun s => n + 1 ≤ s.drawn ∧ Faulty e :=
    stable_drawn.and fun _ _ _ => id
  let T : FileName → Prop := fun f => f.name = .writing (e.id n) ∨ f.name = .recovery (e.id n) ∨
    f = canonicalFile
  have hw : T ⟨.writing (e.id n), .main⟩ := .inl rfl
  have hr : T ⟨.recovery (e.id n), .main⟩ := .inr (.inl rfl)
  have hwrite : Touches e (n + 1) T (writeReplacement e ⟨.writing (e.id n), .main⟩ ciphertext) :=
    touches_writeReplacement hw hkw
  refine Meets.bind (Meets.attempt ((hwrite.yields yields_writeReplacement
    (F := fun s => n + 1 ≤ s.drawn) stable_drawn fun _ => id).pre ?_)) fun r => ?_
  · rintro s rfl
    exact ⟨hn, (hnew _ rfl).1⟩
  cases r with
  | error error =>
    refine Meets.bind ((touches_removeIfExists hw hkw).attempt_keeps hstable fun _ hs => hs.1)
      fun r => ?_
    cases r with
    | ok _ => exact htail _ (.inl rfl)
    | error _ => exact htail _ (.inr (.inl rfl))
  | ok _ =>
    refine Meets.bind (Meets.attempt ((touches_rename hw hkw (.inr (.inr rfl))
      (known_canonical _)).yields (yields_rename (by simp [canonicalFile]))
        (F := fun s => n + 1 ≤ s.drawn) stable_drawn fun _ => id)) fun r => ?_
    cases r with
    | error error =>
      refine Meets.bind (((touches_rename hw hkw hr hkr).attempt_keeps hstable
        fun _ hs => hs.1).pre fun s hs => ⟨hs.1, hs.2.2⟩) fun r => ?_
      cases r with
      | ok _ => exact htail _ (.inr (.inr rfl))
      | error _ => exact htail _ (.inr (.inl rfl))
    | ok _ =>
      refine Meets.bind (Meets.attempt (Meets.bind (yields_quiet id) fun _ =>
        (yields_quiet id).post (fun _ _ => id) fun _ _ => id)) fun r => ?_
      cases r with
      | ok _ => exact Meets.pure fun s hs => hs.2
      | error error =>
        refine Meets.bind (((touches_writeRecovery hr hkr).attempt_keeps hstable
          fun _ hs => hs.1).pre fun s hs => ⟨hs.1.1, hs.2⟩) fun r => ?_
        cases r with
        | ok _ => exact htail _ (.inr (.inr rfl))
        | error _ =>
          refine Meets.bind ((touches_removeIfExists hr hkr).attempt_keeps hstable
            fun _ hs => hs.1) fun r => ?_
          cases r with
          | ok _ => exact htail _ (.inl rfl)
          | error _ => exact htail _ (.inr (.inr rfl))

end EraseMe.EncryptedStore
