import EraseMe.Storage.StoreSteps

/-!
# Opening an encrypted store

What `openEncrypted` does before the store is there leaves the lock, the registry and the stores
alone; when the canonical file is an envelope already, it leaves that alone too.  A decrypted
database holds what the envelope does.
-/

namespace EraseMe.EncryptedStore

open Encryption Faulty Faulty.Prog

variable {τ : Type} {e : Environment τ}

/-- All files but the lock of the database. -/
def OffLock (f : FileName) : Prop := f ≠ canonicalLock

theorem offLock_of_part {name : Name} {part : Part} (h : part ≠ .lock) : OffLock ⟨name, part⟩ := by
  intro heq
  cases heq
  exact h rfl

theorem offLock_of_transit {f : FileName} (h : Transit f) : OffLock f := by
  obtain ⟨id, rfl | rfl⟩ := h
  · exact offLock_of_part (by decide)
  · exact offLock_of_part (by decide)

theorem touches_readOrEmpty {k : ℕ} {T : FileName → Prop} {f : FileName} :
    Touches e k T (readOrEmpty e f) := by
  refine touches_readFile.attempt.bind fun r => ?_
  cases r with
  | ok _ => exact Touches.pure
  | error error =>
    show Touches e k T (if error.kind = .notFound then pure [] else fail (EncryptedStoreError.io error))
    split_ifs
    · exact Touches.pure
    · exact Touches.fail

theorem touches_initializeDatabase {k : ℕ} {T : FileName → Prop} {name : Name}
    (hname : ∀ part, part ≠ .lock → T ⟨name, part⟩) (hknown : Known e k name) :
    Touches e k T (initializeDatabase e name) := by
  have hclean := touches_cleanupInitializer (e := e) hname hknown
  refine (touches_open hname hknown).attempt.bind fun r => ?_
  cases r with
  | error _ => exact touches_withCleanup hclean
  | ok _ =>
    refine (touches_checkpointWal hname hknown).attempt.bind fun r => ?_
    cases r with
    | error _ =>
      exact (touches_closeConnection hname hknown).bind fun _ => touches_withCleanup hclean
    | ok _ => exact touches_closeConnection hname hknown

section Keeps

variable {F : State → Prop} (hF : Stable e OffLock F) (hfresh : ∀ s, F s → Fresh e s)
include hF

theorem stable_drawn_and {n : ℕ} : Stable e OffLock fun s => F s ∧ n ≤ s.drawn :=
  hF.and stable_drawn

theorem keeps_touched {ε α : Type} {m : Prog State ε α} (h : Touches e 0 OffLock m) : Keeps F m :=
  h.keeps hF fun _ _ => Nat.zero_le _

theorem keeps_nextU64_bind {ε β : Type} {f : ℕ → Prog State ε β}
    (h : ∀ n, Keeps (fun s => F s ∧ n + 1 ≤ s.drawn) (f (e.id n))) : Keeps F (nextU64 e >>= f) := by
  have hdrawn (s : State) (hs : F s) : F { s with drawn := s.drawn + 1 } := by
    refine hF s _ ⟨fun _ _ => ⟨rfl, rfl⟩, fun _ _ _ _ => ⟨rfl, rfl⟩, rfl, rfl, ?_⟩ hs
    exact Nat.le_succ _
  refine Meets.bind (Q := fun id s => ∃ n, id = e.id n ∧ F s ∧ n + 1 ≤ s.drawn) ?_ fun id => ?_
  · refine Meets.bind (Q := fun n s => n = s.drawn ∧ F s) (Meets.inspect fun s hs => ⟨rfl, hs⟩)
      fun n => Meets.bind (Q := fun _ s => F s ∧ n + 1 ≤ s.drawn) (Meets.update ?_ ?_)
        fun _ => Meets.pure fun s hs => ⟨n, rfl, hs⟩
    · exact fun s hs => hdrawn s hs.2
    · rintro s ⟨rfl, hs⟩
      exact ⟨hdrawn s hs, le_rfl⟩
  · refine Meets.of_exists fun n => Meets.of_and ?_
    rintro rfl
    exact Meets.mono (h n) (fun _ hs => hs.1) (fun _ => id) (fun _ _ hs => hs.1) fun _ _ hs => hs.1

/-- The recovery copy that is removed is one of the transition's own files. -/
theorem keeps_cleanupUnregisteredRecovery {error : EncryptedStoreError} :
    Meets F (fun s => F s ∧ Remembers e error s) (cleanupUnregisteredRecovery e error)
      (fun _ => F) fun _ => F := by
  unfold cleanupUnregisteredRecovery
  cases hpath : recoveryPath error with
  | none => exact Meets.fail fun _ hs => hs.1
  | some p =>
    refine Meets.of_forall fun s hs => ?_
    obtain ⟨htransit, hknown⟩ := hs.2 p hpath
    have hkeeps : Keeps (fun t => F t ∧ s.drawn ≤ t.drawn) (removeIfExists e p) :=
      (touches_removeIfExists (offLock_of_transit htransit) hknown).keeps (stable_drawn_and hF)
        fun _ h => h.2
    refine Meets.mono (hkeeps.attempt.bind fun _ => Keeps.fail) (fun _ h => h.1) ?_
      (fun _ _ h => h.1) fun _ _ h => h.1
    rintro t rfl
    exact ⟨hs.1, le_rfl⟩

include hfresh

theorem meets_atomicTransition {ciphertext : Bytes} :
    Meets F F (atomicTransitionWithRecovery e canonicalFile ciphertext) (fun _ => F)
      fun error s => F s ∧ Remembers e error s := by
  have htouches : Touches e 0 OffLock (atomicTransitionWithRecovery e canonicalFile ciphertext) :=
    touches_atomicTransition (offLock_of_part (by decide)) fun _ => offLock_of_transit
  exact (htouches.frame yields_atomicTransition hF fun _ _ => Nat.zero_le _).mono (fun _ => id)
    (fun s hs => ⟨hs, hfresh s hs⟩) (fun _ _ hs => hs.1) fun _ _ hs => ⟨hs.1, hs.2.1⟩

theorem keeps_transitionUnregistered {ciphertext : Bytes} :
    Keeps F (transitionUnregistered e ciphertext) := by
  refine Meets.bind (Meets.attempt (meets_atomicTransition hF hfresh)) fun r => ?_
  cases r with
  | ok _ => exact Keeps.pure
  | error _ => exact keeps_cleanupUnregisteredRecovery hF

theorem keeps_encryptExisting : Keeps F (encryptExisting e) := by
  refine (keeps_touched hF touches_readOrEmpty).bind fun raw => ?_
  show Keeps F (if raw = [] ∨ isEncrypted raw then pure () else _)
  split_ifs
  · exact Keeps.pure
  · exact (keeps_touched hF touches_currentMasterKey).bind fun _ =>
      (keeps_touched hF touches_encryptV3.mapError).bind fun _ =>
        keeps_transitionUnregistered hF hfresh

theorem keeps_publishInitializer {masterKey : Bytes} : Keeps F (publishInitializer e masterKey) := by
  refine keeps_nextU64_bind hF fun n => ?_
  have hstable := stable_drawn_and hF (n := n + 1)
  have hname : ∀ part, part ≠ .lock → OffLock ⟨.initializer (e.id n), part⟩ :=
    fun _ => offLock_of_part
  have hknown : Known e (n + 1) (.initializer (e.id n)) := known_of_number rfl
  have hkeeps {ε α : Type} {m : Prog State ε α} (h : Touches e (n + 1) OffLock m) :
      Keeps (fun s => F s ∧ n + 1 ≤ s.drawn) m := h.keeps hstable fun _ hs => hs.2
  have hclean : Touches e (n + 1) OffLock (cleanupInitializer e (.initializer (e.id n))) :=
    touches_cleanupInitializer hname hknown
  refine (hkeeps (touches_createNew (hname _ (by decide)) hknown).mapError).bind fun _ =>
    (hkeeps (touches_initializeDatabase hname hknown)).bind fun _ =>
      (hkeeps touches_readFile.attempt).bind fun r => ?_
  cases r with
  | error _ => exact hkeeps (touches_withCleanup hclean)
  | ok bytes =>
    refine (hkeeps touches_encryptV3.attempt).bind fun r => ?_
    cases r with
    | error _ => exact hkeeps (touches_withCleanup hclean)
    | ok ciphertext =>
      refine Meets.bind (Meets.attempt (meets_atomicTransition hstable fun s hs => hfresh s hs.1))
        fun r => ?_
      cases r with
      | ok _ => exact hkeeps hclean.mapError
      | error error =>
        -- The initializer goes first, so the recovery path has to be remembered meanwhile.
        have hremembers : Stable e OffLock fun s => (F s ∧ n + 1 ≤ s.drawn) ∧
            Remembers e error s := by
          refine hstable.and fun s t h hs p hp => ?_
          exact ⟨(hs p hp).1, (hs p hp).2.mono h.drawn⟩
        refine Meets.bind (Q := fun _ s => (F s ∧ n + 1 ≤ s.drawn) ∧ Remembers e error s)
          (Meets.mono (hclean.attempt.keeps hremembers fun _ hs => hs.1.2) (fun _ hs => hs.1)
            (fun _ => id) (fun _ _ => id) fun _ _ hs => hs.1) fun cleanup => ?_
        refine Meets.bind (Meets.attempt (keeps_cleanupUnregisteredRecovery hstable)) fun r => ?_
        refine Meets.pre (hkeeps (touches_withCleanup Touches.ofExcept)) fun s hs => ?_
        cases r <;> exact hs

theorem keeps_convertPlain : Keeps F (convertPlain e) := by
  have hname : ∀ part, part ≠ .lock → OffLock ⟨.canonical, part⟩ := fun _ => offLock_of_part
  have hknown : Known e 0 .canonical := known_canonical 0
  refine (keeps_touched hF (touches_open hname hknown).mapError).bind fun _ =>
    (keeps_touched hF (touches_checkpointWal hname hknown).attempt).bind fun r => ?_
  have hclose {ε : Type} : Keeps F (closeConnection e .canonical : Prog State ε Unit) :=
    keeps_touched hF (touches_closeConnection hname hknown)
  cases r with
  | error _ => exact hclose.bind fun _ => Keeps.fail
  | ok _ => exact hclose.bind fun _ => keeps_encryptExisting hF hfresh

theorem keeps_prepareCanonical {masterKey : Bytes} : Keeps F (prepareCanonical e masterKey) := by
  refine (keeps_touched hF touches_readOrEmpty).bind fun raw => ?_
  show Keeps F (if raw = [] then publishInitializer e masterKey
    else if isEncrypted raw then pure () else convertPlain e)
  split_ifs
  · exact keeps_publishInitializer hF hfresh
  · exact Keeps.pure
  · exact keeps_convertPlain hF hfresh

theorem keeps_migrateEnvelope {masterKey : Bytes} : Keeps F (migrateEnvelope e masterKey) := by
  refine (keeps_touched hF touches_readFile.mapError).bind fun ciphertext => ?_
  cases hlegacy : isLegacy ciphertext with
  | false => exact Keeps.pure
  | true =>
    exact Keeps.ofExcept.bind fun _ => (keeps_touched hF touches_encryptV3.mapError).bind fun _ =>
      (keeps_transitionUnregistered hF hfresh).bind fun _ => Keeps.pure

end Keeps

/-! ### The decrypted database -/

/-- A failed step stays failed, whatever the cleaning up does. -/
theorem yields_withCleanup {α : Type} {k : ℕ} {T : FileName → Prop} {p : Prop}
    {step text : String} {error : EncryptedStoreError} {cleanup : Prog State IoError Unit}
    {Q : α → State → Prop} (h : Touches e k T cleanup) :
    Yields (fun s => k ≤ s.drawn ∧ p) (withCleanup step error text cleanup) Q fun _ _ => p := by
  refine Meets.bind (h.attempt_keeps (F := fun s => k ≤ s.drawn ∧ p)
    (stable_drawn.and fun _ _ _ => id) fun _ hs => hs.1) fun r => ?_
  cases r <;> exact Meets.fail fun _ hs => hs.2

theorem touches_writeTemp {k : ℕ} {T : FileName → Prop} {f : FileName} {plaintext : Bytes}
    (hf : T f) (hknown : Known e k f.name) : Touches e k T (writeTemp e f plaintext) :=
  (touches_writeAll hf hknown).bind fun _ => touches_quiet

/-- The decrypted database is created with what the envelope holds, or all of its files belong to
nobody. -/
theorem meets_openTemp {F : State → Prop} {k : ℕ} {name : Name} {plaintext : Bytes}
    (hF : Stable e (fun f => f.name = name) F) (hk : ∀ s, F s → k ≤ s.drawn)
    (hknown : Known e k name) :
    Meets F (fun s => F s ∧ ∀ part, s.files ⟨name, part⟩ = none ∧ s.locked ⟨name, part⟩ = false)
      (openTemp e name plaintext)
      (fun lock s => F s ∧ lock = tempLockOf name ∧
        ∃ db, e.database.view plaintext [] = some db ∧ Holds e name db s)
      fun _ s => F s ∧ (e.database.view plaintext [] ≠ none → Faulty e) := by
  let Main : FileName → Prop := fun f => f = ⟨name, .main⟩
  let Lock : FileName → Prop := fun f => f = ⟨name, .lock⟩
  have hmain : Stable e Main F := hF.mono fun f hf => by rw [hf]
  have hlock : Stable e Lock F := hF.mono fun f hf => by rw [hf]
  have hfailed {G : State → Prop} {m : Prog State IoError Unit} {step text : String}
      {error : EncryptedStoreError} (hm : Touches e k (fun f => f.name = name) m)
      (hG : ∀ s, G s → F s ∧ (e.database.view plaintext [] ≠ none → Faulty e)) :
      Meets F G (withCleanup step error text m : Prog State EncryptedStoreError DbLock)
        (fun lock s => F s ∧ lock = tempLockOf name ∧
          ∃ db, e.database.view plaintext [] = some db ∧ Holds e name db s)
        fun _ s => F s ∧ (e.database.view plaintext [] ≠ none → Faulty e) :=
    ((touches_withCleanup hm).frame (yields_withCleanup (Q := fun _ _ => False) hm) hF hk).mono
      (fun _ => id) (fun s hs => ⟨(hG s hs).1, hk s (hG s hs).1, (hG s hs).2⟩)
      (fun _ _ hs => hs.2.elim) fun _ _ => id
  have hclean : Touches e k (fun f => f.name = name) (cleanupPlainTemp e name) :=
    touches_cleanupPlainTemp (fun _ _ => rfl) hknown
  -- The file is created and written; its log is not there and its lock is free.
  let Free : State → Prop := fun s =>
    F s ∧ s.files ⟨name, .wal⟩ = none ∧ s.locked ⟨name, .lock⟩ = false
  have hfree : Stable e Main Free :=
    hmain.and ((stable_file (by simp [Main])).and (stable_locked (by simp [Main])))
  refine Meets.bind (Q := fun _ s => Free s) (Meets.mapError
    (E := fun _ s => F s ∧ Faulty e) (((touches_createNew (T := Main) rfl hknown).frame
      yields_createNew hfree fun s hs => hk s hs.1).mono (fun _ hs => hs.1) ?_ (fun _ _ hs => hs.1)
        fun _ _ hs => ⟨hs.1.1, hs.2⟩) fun _ s hs => ⟨hs.1, fun _ => hs.2⟩) fun _ => ?_
  · exact fun s hs => ⟨⟨hs.1, (hs.2 .wal).1, (hs.2 .lock).2⟩, (hs.2 .main).1⟩
  have hwrite : Yields (fun _ => True) (writeTemp e ⟨name, .main⟩ plaintext)
      (fun _ s => s.files ⟨name, .main⟩ = some plaintext) fun _ _ => Faulty e :=
    yields_writeAll.bind fun _ => (yields_quiet id).post (fun _ _ => id) fun _ _ hs => hs.2
  refine Meets.bind (Meets.attempt (((touches_writeTemp (T := Main) rfl hknown).frame hwrite
    hfree fun s hs => hk s hs.1).mono (fun _ hs => hs.1) (fun _ hs => ⟨hs, trivial⟩) (fun _ _ => id)
      fun _ _ => id)) fun r => ?_
  cases r with
  | error _ => exact hfailed hclean fun s hs => ⟨hs.1.1, fun _ => hs.2⟩
  | ok _ =>
    -- The lock is taken.
    let Written : State → Prop := fun s =>
      F s ∧ s.files ⟨name, .wal⟩ = none ∧ s.files ⟨name, .main⟩ = some plaintext
    have hwritten : Stable e Lock Written :=
      hlock.and ((stable_file (by simp [Lock])).and (stable_file (by simp [Lock])))
    refine Meets.bind (Meets.attempt (((touches_acquire (T := Lock) rfl hknown).frame
      ((meets_acquire false).mono (fun _ _ => trivial) (fun _ => id) (fun _ _ => id)
        fun _ _ => id) hwritten fun s hs => hk s hs.1).mono (fun _ hs => hs.1) ?_ (fun _ _ => id)
        fun _ _ => id)) fun r => ?_
    · exact fun s hs => ⟨⟨hs.1.1, hs.1.2.1, hs.2⟩, hs.1.2.2⟩
    cases r with
    | error _ => exact hfailed hclean fun s hs => ⟨hs.1.1, fun _ => hs.2.2 rfl⟩
    | ok lock =>
      -- The database is opened: it holds what the plaintext does.
      refine Meets.pre (P := fun s => lock = tempLockOf name ∧
        F s ∧ e.database.view (s.main name) (s.wal name) = e.database.view plaintext []) ?_ ?_
      · refine Meets.of_and ?_
        rintro rfl
        refine Meets.bind (Meets.attempt ((touches_open (fun _ _ => rfl) hknown).frame yields_open
          hF hk)) fun r => ?_
        cases r with
        | ok _ => exact Meets.pure fun s hs => ⟨hs.1, rfl, hs.2⟩
        | error _ =>
          exact hfailed (touches_cleanupPlainTempWithLock (fun _ => rfl) hknown) fun s => id
      · intro s hs
        refine ⟨hs.2.2.1, hs.1.1, ?_⟩
        rw [State.main, State.wal, hs.1.2.1, hs.1.2.2, Option.getD_none, Option.getD_some]

/-! ### Opening -/

/-- The registry and the stores, in a state where drawn numbers are new. -/
def Base (e : Environment τ) (registration : Option RegisteredTemp) (stores : List Store)
    (s : State) : Prop :=
  Fresh e s ∧ s.encryptedTemps = registration ∧ s.stores = stores

theorem stable_base {T : FileName → Prop} {registration : Option RegisteredTemp}
    {stores : List Store} : Stable e T (Base e registration stores) :=
  fun _ _ h hs => ⟨h.fresh hs.1, h.encryptedTemps.trans hs.2.1, h.stores.trans hs.2.2⟩

/-- The store that `openEncrypted` gives to its caller, and its connection. -/
def openedStore (id : ℕ) (connection : Option Name) : Store where
  sqlitePath := .decrypted id
  encryptedPath := some .canonical
  dbLock := some ⟨canonicalLock⟩
  connection := connection

/-- The registration of a store that is open. -/
def activeTemp (id : ℕ) : RegisteredTemp where
  tmpPath := .decrypted id
  active := true
  lock := none
  tempLock := some (tempLockOf (.decrypted id))
  recoveryPaths := []

/-- No store is open and the database is not locked. -/
def Idle (e : Environment τ) (s : State) : Prop :=
  Base e none [] s ∧ s.locked canonicalLock = false

/-- A store is open and its decrypted database holds `db`. -/
def Opened (e : Environment τ) (id : ℕ) (db : List τ) (s : State) : Prop :=
  Base e (some (activeTemp id)) [openedStore id (some (.decrypted id))] s ∧
    s.locked canonicalLock = true ∧ Known e s.drawn (.decrypted id) ∧
      Holds e (.decrypted id) db s

/-- What the canonical file holds, when that is known. -/
def SealedAs (e : Environment τ) (target : Option (List τ)) (s : State) : Prop :=
  ∀ db, target = some db → Sealed e db s

theorem stable_sealedAs {T : FileName → Prop} {target : Option (List τ)}
    (hcanonical : ¬ T canonicalFile) : Stable e T (SealedAs e target) :=
  fun s t h hs db hdb => stable_sealed hcanonical s t h (hs db hdb)

section Opening

variable {target : Option (List τ)} {F : State → Prop}

theorem sealedAs_none (s : State) : SealedAs e none s := by
  intro db hdb
  cases hdb

/-- The canonical file that is read is the envelope. -/
theorem yields_readCanonical {db : List τ} :
    Yields (SealedAs e (some db)) (readFile e canonicalFile) (fun raw _ => Envelope e db raw)
      fun error _ => error.kind ≠ .notFound ∧ Faulty e := by
  refine yields_readFile.post (fun raw s hs => ?_) fun error s hs => ?_
  · obtain ⟨raw', hraw', henvelope⟩ := hs.1 db rfl
    rw [hs.2] at hraw'
    rw [Option.some.inj hraw']
    exact henvelope
  · obtain ⟨raw, hraw, -⟩ := hs.1 db rfl
    rcases hs.2 with ⟨hnone, -⟩ | ⟨hother, hfaulty⟩
    · rw [hraw] at hnone
      cases hnone
    · exact ⟨by rw [hother]; simp, hfaulty⟩

/-- A step that keeps `F`, and the canonical file when that is an envelope. -/
theorem meets_sealedAs {α : Type} {m : Prog State EncryptedStoreError α}
    {R : List τ → α → Prop} (hkeeps : Keeps F m)
    (hsealed : ∀ db, Meets (SealedAs e (some db)) (SealedAs e (some db)) m
      (fun a s => SealedAs e (some db) s ∧ R db a) fun _ s => SealedAs e (some db) s ∧ Faulty e) :
    Meets (SealedAs e target) (fun s => F s ∧ SealedAs e target s) m
      (fun a s => (F s ∧ SealedAs e target s) ∧ ∀ db, target = some db → R db a)
      fun _ s => (F s ∧ SealedAs e target s) ∧ (target ≠ none → Faulty e) := by
  cases target with
  | none =>
    refine hkeeps.mono (fun s _ => sealedAs_none s) (fun _ hs => hs.1)
      (fun _ s hs => ⟨⟨hs, sealedAs_none s⟩, fun db hdb => ?_⟩)
      fun _ s hs => ⟨⟨hs, sealedAs_none s⟩, fun h => absurd rfl h⟩
    cases hdb
  | some db =>
    refine ((hsealed db).and hkeeps).mono (fun _ hs => hs.1) (fun s hs => ⟨hs.2, hs.1⟩)
      (fun a s hs => ⟨⟨hs.2, hs.1.1⟩, fun db' hdb' => ?_⟩)
      fun _ s hs => ⟨⟨hs.2, hs.1.1⟩, fun _ => hs.1.2⟩
    rw [← Option.some.inj hdb']
    exact hs.1.2

variable (hF : Stable e OffLock F) (hfresh : ∀ s, F s → Fresh e s)
include hF hfresh

/-- The canonical file is left alone when it is an envelope. -/
theorem meets_prepareCanonical :
    Meets (SealedAs e target) (fun s => F s ∧ SealedAs e target s)
      (prepareCanonical e e.masterKey) (fun _ s => F s ∧ SealedAs e target s)
      fun _ s => (F s ∧ SealedAs e target s) ∧ (target ≠ none → Faulty e) := by
  refine (meets_sealedAs (R := fun _ _ => True) (keeps_prepareCanonical hF hfresh)
    fun db => ?_).post (fun _ _ hs => hs.1) fun _ _ => id
  have hstable : Stable e (fun _ => False) (SealedAs e (some db)) := stable_sealedAs id
  have hread : Yields (SealedAs e (some db)) (readOrEmpty e canonicalFile)
      (fun raw _ => Envelope e db raw) fun _ _ => Faulty e := by
    refine Meets.bind (Meets.attempt yields_readCanonical) fun r => ?_
    cases r with
    | ok raw => exact Meets.pure fun _ hs => hs
    | error error =>
      show Meets _ _ (if error.kind = .notFound then pure []
        else fail (EncryptedStoreError.io error)) _ _
      split_ifs with hkind
      · exact Meets.pure fun _ hs => absurd hkind hs.1
      · exact Meets.fail fun _ hs => hs.2
  refine Meets.bind (((touches_readOrEmpty (e := e) (k := 0)).frame hread hstable
    fun _ _ => Nat.zero_le _).pre fun s hs => ⟨hs, hs⟩) fun raw => ?_
  show Meets _ _ (if raw = [] then publishInitializer e e.masterKey
    else if isEncrypted raw then pure () else convertPlain e) _ _
  split_ifs with hnil hencrypted
  · exact fun w hw => absurd hnil hw.2.ne_nil
  · exact Meets.pure fun s hs => ⟨hs.1, trivial⟩
  · exact fun w hw => absurd hw.2.isEncrypted hencrypted

theorem meets_migrateEnvelope :
    Meets (SealedAs e target) (fun s => F s ∧ SealedAs e target s)
      (migrateEnvelope e e.masterKey)
      (fun raw s => (F s ∧ SealedAs e target s) ∧ ∀ db, target = some db → Envelope e db raw)
      fun _ s => (F s ∧ SealedAs e target s) ∧ (target ≠ none → Faulty e) := by
  refine meets_sealedAs (keeps_migrateEnvelope hF hfresh) fun db => ?_
  have hstable : Stable e (fun _ => False) (SealedAs e (some db)) := stable_sealedAs id
  refine Meets.bind (Meets.mapError (E := fun _ s => SealedAs e (some db) s ∧ Faulty e)
    (((touches_readFile (e := e) (k := 0)).frame yields_readCanonical hstable
      fun _ _ => Nat.zero_le _).mono (fun _ => id) (fun s hs => ⟨hs, hs⟩) (fun _ _ => id)
        fun _ _ hs => ⟨hs.1, hs.2.2⟩) fun _ _ => id) fun raw => ?_
  cases hlegacy : isLegacy raw with
  | false => exact Meets.pure fun _ => id
  | true =>
    intro w hw
    have hother := hw.2.2
    rw [hlegacy] at hother
    cases hother

end Opening

/-- Under the lock, a store is opened on the database that the envelope holds. -/
theorem meets_openLocked {target : Option (List τ)} :
    Meets (SealedAs e target)
      (fun s => (Base e none [] s ∧ s.locked canonicalLock = true) ∧ SealedAs e target s)
      (openLocked e ⟨canonicalLock⟩)
      (fun _ s => ∃ id db, Opened e id db s ∧ ∀ db', target = some db' → db' = db)
      fun _ s => ((Base e none [] s ∧ s.locked canonicalLock = true) ∧ SealedAs e target s) ∧
        (target ≠ none → Faulty e) := by
  let F : State → Prop := fun s => Base e none [] s ∧ s.locked canonicalLock = true
  have hF : Stable e OffLock F := stable_base.and (stable_locked (by simp [OffLock]))
  have hfresh : ∀ s, F s → Fresh e s := fun s hs => hs.1.1
  let G : State → Prop := fun s => F s ∧ SealedAs e target s
  refine Meets.bind (Q := fun key s => key = e.masterKey ∧ G s) ?_ fun key => ?_
  · refine ((touches_currentMasterKey (e := e) (k := 0) (T := fun _ => False)).frame
      (yields_currentMasterKey (P := fun _ => True)) (F := G) ?_ fun _ _ => Nat.zero_le _).mono
      (fun _ hs => hs.2) (fun s hs => ⟨hs, trivial⟩) (fun _ s hs => ⟨hs.2.1, hs.1⟩)
      fun _ s hs => ⟨hs.1, fun _ => hs.2.2.2⟩
    exact (hF.mono fun _ => False.elim).and (stable_sealedAs id)
  refine Meets.of_and ?_
  rintro rfl
  refine Meets.bind (meets_prepareCanonical hF hfresh) fun _ => ?_
  refine Meets.bind (meets_migrateEnvelope hF hfresh) fun raw => ?_
  refine Meets.bind (Q := fun plain s => G s ∧
    ∀ db, target = some db → e.database.view plain [] = some db)
    (Meets.ofExcept fun s hs => ?_) fun plain => ?_
  · cases hplain : decryptAny e.crypto raw e.masterKey with
    | ok plain =>
      refine ⟨hs.1, fun db hdb => ?_⟩
      obtain ⟨⟨plain', hplain', hview⟩, -⟩ := hs.2 db hdb
      rw [hplain] at hplain'
      rw [Except.ok.inj hplain']
      exact hview
    | error error =>
      refine ⟨hs.1, fun htarget => ?_⟩
      obtain ⟨db, hdb⟩ := Option.ne_none_iff_exists'.mp htarget
      obtain ⟨⟨plain', hplain', -⟩, -⟩ := hs.2 db hdb
      rw [hplain] at hplain'
      cases hplain'
  let H : State → Prop := fun s => G s ∧ ∀ db, target = some db → e.database.view plain [] = some db
  have hH {T : FileName → Prop} (hcanonical : ¬ T canonicalFile) (hlock : ¬ T canonicalLock) :
      Stable e T H :=
    ((stable_base.and (stable_locked hlock)).and (stable_sealedAs hcanonical)).and fun _ _ _ => id
  refine Meets.bind (Q := fun id s => ∃ n, id = e.id n ∧ H s ∧ n + 1 ≤ s.drawn ∧ Fresh e s ∧
    ∀ f : FileName, f.name.number = some id → s.files f = none ∧ s.locked f = false) ?_ fun id => ?_
  · refine ((touches_nextU64 (k := 0) (T := fun _ => False)).frame
      (yields_nextU64 (E := fun _ _ => False)) (hH id id) fun _ _ => Nat.zero_le _).mono
      (fun _ hs => hs.1.2) (fun s hs => ⟨hs, hfresh s hs.1.1⟩) (fun id s hs => ?_)
      fun _ _ hs => hs.2.elim
    obtain ⟨hs, n, hid, hnew⟩ := hs
    exact ⟨n, hid, hs, hnew⟩
  refine Meets.of_exists fun n => Meets.of_and ?_
  rintro rfl
  have hknown : Known e (n + 1) (.decrypted (e.id n)) := known_of_number rfl
  refine Meets.bind ((meets_openTemp (F := fun s => H s ∧ n + 1 ≤ s.drawn)
    ((hH (by simp [canonicalFile]) (by simp [canonicalLock])).and stable_drawn)
    (fun _ hs => hs.2) hknown).mono (fun _ hs => hs.1.1.2)
      (fun s hs => ⟨⟨hs.1, hs.2.1⟩, fun part => hs.2.2.2 _ rfl⟩) (fun _ _ => id) fun _ s hs => ?_)
    fun tempLock => ?_
  · refine ⟨hs.1.1.1, fun htarget => hs.2 ?_⟩
    obtain ⟨db, hdb⟩ := Option.ne_none_iff_exists'.mp htarget
    rw [hs.1.1.2 db hdb]
    simp
  -- The store and its registration appear; no file changes any more.
  refine Meets.of_forall fun s hs => ?_
  obtain ⟨⟨hs, hdrawn⟩, rfl, db, hview, hholds⟩ := hs
  obtain ⟨⟨⟨⟨hfresh, -, hstores⟩, hlocked⟩, hsealed⟩, htarget⟩ := hs
  refine Meets.bind (Q := fun _ t => t = { s with stores := s.stores ++
    [openedStore (e.id n) (some (.decrypted (e.id n)))] }) (Meets.update ?_ ?_) fun _ =>
    Meets.update ?_ ?_
  · rintro t rfl
    exact hsealed
  · rintro t rfl
    rfl
  · rintro t rfl
    exact hsealed
  · rintro t rfl
    refine ⟨e.id n, db, ⟨⟨hfresh, rfl, ?_⟩, hlocked, hknown.mono hdrawn, hholds⟩,
      fun db' hdb' => ?_⟩
    · show s.stores ++ [_] = _
      rw [hstores, List.nil_append]
    · have hsame := htarget db' hdb'
      rw [hview] at hsame
      exact (Option.some.inj hsame).symm

/-- What a step that changes nothing keeps, with the reason of its error. -/
theorem meets_quiet {P : State → Prop} {o : Operation} (hside : ¬ Sidecar o) :
    Meets P P (quiet e o) (fun _ => P) fun _ s => P s ∧ Faulty e :=
  Meets.perform (fun _ hs => hs) (fun _ hs => hs)
    fun n fault _ hfault hs => ⟨hs, hs, o, hside, n, fault, hfault⟩

/-- The directories are made and the lock of the database is taken, if it is free. -/
theorem meets_openEncrypted_of {I F : State → Prop} (held : Bool) {Q : Unit → State → Prop}
    {E : EncryptedStoreError → State → Prop}
    (hI : ∀ s, F s → s.locked canonicalLock = held ∨ held = false → I s)
    (hF : Stable e (fun f => f = canonicalLock) F)
    (hend : ∀ error s, F s → s.locked canonicalLock = held → (held = false → Faulty e) → E error s)
    (hlocked : held = false → Meets I (fun s => F s ∧ s.locked canonicalLock = true)
      (do
        match ← attempt (openLocked e ⟨canonicalLock⟩) with
        | .ok () => pure ()
        | .error error => do
            (⟨canonicalLock⟩ : DbLock).drop
            fail error) Q E) :
    Meets I (fun s => F s ∧ s.locked canonicalLock = held) (openEncrypted e) Q E := by
  have hquiet {o : Operation} (hside : ¬ Sidecar o) :
      Meets I (fun s => F s ∧ s.locked canonicalLock = held) (quiet e o)
        (fun _ s => F s ∧ s.locked canonicalLock = held)
        fun _ s => (F s ∧ s.locked canonicalLock = held) ∧ Faulty e :=
    (meets_quiet hside).mono (fun s hs => hI s hs.1 (.inl hs.2)) (fun _ => id) (fun _ _ => id)
      fun _ _ => id
  refine Meets.bind (Meets.mapError (hquiet id) fun error s hs =>
    hend _ s hs.1.1 hs.1.2 fun _ => hs.2) fun _ => ?_
  refine Meets.bind (Meets.mapError (Meets.bind (hquiet id) fun _ => hquiet id) fun error s hs =>
    hend _ s hs.1.1 hs.1.2 fun _ => hs.2) fun _ => ?_
  refine Meets.bind (Q := fun lock s => (held = false ∧ lock = tempLockOf .canonical) ∧
    F s ∧ s.locked canonicalLock = true) (Meets.mapError
      (((touches_acquire (T := fun f => f = canonicalLock) rfl (known_canonical 0)).frame_meets
        (meets_acquire held) hF fun _ _ => Nat.zero_le _).mono (fun s hs => hI s hs.1 hs.2)
          (fun _ => id) (fun _ s hs => ?_) fun _ _ => id) fun error s hs => ?_) fun lock => ?_
  · exact ⟨⟨hs.2.1, hs.2.2.1⟩, hs.1, hs.2.2.2⟩
  · exact hend _ s hs.1 hs.2.1 hs.2.2
  · refine Meets.of_and ?_
    rintro ⟨hfree, rfl⟩
    exact hlocked hfree

/-- Opening an idle store; what the canonical file holds is in the decrypted database. -/
theorem meets_openEncrypted {target : Option (List τ)} :
    Meets (SealedAs e target) (fun s => Idle e s ∧ SealedAs e target s) (openEncrypted e)
      (fun _ s => ∃ id db, Opened e id db s ∧ ∀ db', target = some db' → db' = db)
      fun _ s => (Idle e s ∧ SealedAs e target s) ∧ (target ≠ none → Faulty e) := by
  refine (meets_openEncrypted_of false (F := fun s => Base e none [] s ∧ SealedAs e target s)
    (fun _ hs _ => hs.2) (stable_base.and (stable_sealedAs (by simp [canonicalFile, canonicalLock])))
    (fun error s hs hlocked hfaulty => ?_) fun _ => ?_).pre fun s hs => ⟨⟨hs.1.1, hs.2⟩, hs.1.2⟩
  · exact ⟨⟨⟨hs.1, hlocked⟩, hs.2⟩, fun _ => hfaulty rfl⟩
  · refine Meets.bind (Meets.attempt (meets_openLocked.pre fun s hs =>
      ⟨⟨hs.1.1, hs.2⟩, hs.1.2⟩)) fun r => ?_
    cases r with
    | ok _ => exact Meets.pure fun _ => id
    | error error =>
      -- The lock goes with the error.
      refine Meets.bind (Q := fun _ s => (Idle e s ∧ SealedAs e target s) ∧
        (target ≠ none → Faulty e)) (Meets.update (fun s hs => hs.1.2) fun s hs => ?_)
        fun _ => Meets.fail fun _ => id
      obtain ⟨⟨⟨⟨hfresh, htemps, hstores⟩, -⟩, hsealed⟩, hfaulty⟩ := hs
      refine ⟨⟨⟨⟨fun n hn f hf => ?_, htemps, hstores⟩, ?_⟩, hsealed⟩, hfaulty⟩
      · obtain ⟨hfile, hlocked⟩ := hfresh n hn f hf
        have hne : f ≠ canonicalLock := by
          rintro rfl
          cases hf
        exact ⟨hfile, (Function.update_of_ne hne _ _).trans hlocked⟩
      · exact s.locked_setLocked_self _ _

/-- A database that is locked is not opened. -/
theorem meets_openEncrypted_held {F : State → Prop}
    (hF : Stable e (fun f => f = canonicalLock) F) :
    Meets (fun s => F s ∧ s.locked canonicalLock = true)
      (fun s => F s ∧ s.locked canonicalLock = true) (openEncrypted e) (fun _ _ => False)
      fun _ s => F s ∧ s.locked canonicalLock = true := by
  refine meets_openEncrypted_of true (fun s hs hlocked => ⟨hs, ?_⟩) hF
    (fun _ _ hs hlocked _ => ⟨hs, hlocked⟩) fun h => by cases h
  rcases hlocked with h | h
  · exact h
  · cases h

end EraseMe.EncryptedStore
