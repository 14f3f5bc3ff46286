import EraseMe.Storage.EncryptedStore

/-!
# What the steps of an encrypted store leave alone

`Touches e k T m`: the program `m` changes no file outside of `T`, neither the registry nor the
stores, and no file whose number is still to be drawn, given that `k` numbers have been drawn.  The
last part is what makes a drawn number new (`Fresh`).
-/

namespace EraseMe.EncryptedStore

open Encryption Faulty Faulty.Prog

variable {τ : Type} {e : Environment τ}

/-- The number in a name. -/
def Name.number : Name → Option ℕ
  | .canonical => none
  | .initializer id => some id
  | .decrypted id => some id
  | .writing id => some id
  | .recovery id => some id

/-- The number in the name, if any, is among the first `k` drawn. -/
def Known (e : Environment τ) (k : ℕ) (name : Name) : Prop :=
  ∀ n, name.number = some (e.id n) → n < k

theorem known_canonical (k : ℕ) : Known e k .canonical := by
  intro n h
  cases h

theorem known_of_number {name : Name} {n : ℕ} (h : name.number = some (e.id n)) :
    Known e (n + 1) name := by
  intro m hm
  have hsame : m = n := e.id_injective (Option.some.inj (hm.symm.trans h))
  omega

theorem Known.mono {name : Name} {k l : ℕ} (h : Known e k name) (hkl : k ≤ l) : Known e l name :=
  fun n hn => (h n hn).trans_le hkl

/-- A file and its lock are the same in two states. -/
def Same (s t : State) (f : FileName) : Prop :=
  t.files f = s.files f ∧ t.locked f = s.locked f

/-- No file bears a number that is still to be drawn. -/
def Fresh (e : Environment τ) (s : State) : Prop :=
  ∀ n, s.drawn ≤ n → ∀ f : FileName, f.name.number = some (e.id n) →
    s.files f = none ∧ s.locked f = false

/-- Two states that differ in files of `T` only. -/
structure Agree (e : Environment τ) (T : FileName → Prop) (s t : State) : Prop where
  same : ∀ f, ¬ T f → Same s t f
  undrawn : ∀ n, t.drawn ≤ n → ∀ f : FileName, f.name.number = some (e.id n) → Same s t f
  encryptedTemps : t.encryptedTemps = s.encryptedTemps
  stores : t.stores = s.stores
  drawn : s.drawn ≤ t.drawn

section Agree

variable {T T' : FileName → Prop} {s t u : State}

theorem Agree.refl (s : State) : Agree e T s s where
  same _ _ := ⟨rfl, rfl⟩
  undrawn _ _ _ _ := ⟨rfl, rfl⟩
  encryptedTemps := rfl
  stores := rfl
  drawn := le_rfl

theorem Same.trans {f : FileName} (h : Same s t f) (h' : Same t u f) : Same s u f :=
  ⟨h'.1.trans h.1, h'.2.trans h.2⟩

theorem Agree.trans (h : Agree e T s t) (h' : Agree e T t u) : Agree e T s u where
  same f hf := (h.same f hf).trans (h'.same f hf)
  undrawn n hn f hf := (h.undrawn n (h'.drawn.trans hn) f hf).trans (h'.undrawn n hn f hf)
  encryptedTemps := h'.encryptedTemps.trans h.encryptedTemps
  stores := h'.stores.trans h.stores
  drawn := h.drawn.trans h'.drawn

theorem Agree.mono (h : Agree e T s t) (hT : ∀ f, T f → T' f) : Agree e T' s t :=
  { h with same := fun f hf => h.same f fun hf' => hf (hT f hf') }

theorem Agree.fresh (h : Agree e T s t) (hs : Fresh e s) : Fresh e t := by
  intro n hn f hf
  obtain ⟨hfiles, hlocked⟩ := h.undrawn n hn f hf
  rw [hfiles, hlocked]
  exact hs n (h.drawn.trans hn) f hf

/-- A change of one file of `T`, with a known number. -/
theorem Agree.change {k : ℕ} {f : FileName} (h : Agree e T s t) (hk : k ≤ s.drawn) (hf : T f)
    (hknown : Known e k f.name) (hsame : ∀ g, g ≠ f → Same t u g)
    (htemps : u.encryptedTemps = t.encryptedTemps) (hstores : u.stores = t.stores)
    (hdrawn : u.drawn = t.drawn) : Agree e T s u where
  same g hg := (h.same g hg).trans (hsame g fun heq => hg (heq ▸ hf))
  undrawn n hn g hg := by
    rw [hdrawn] at hn
    refine (h.undrawn n hn g hg).trans (hsame g fun heq => ?_)
    subst heq
    have hlt := hknown n hg
    have hle := h.drawn
    omega
  encryptedTemps := htemps.trans h.encryptedTemps
  stores := hstores.trans h.stores
  drawn := hdrawn ▸ h.drawn

theorem Agree.put {k : ℕ} {f : FileName} {content : Option Bytes} (h : Agree e T s t)
    (hk : k ≤ s.drawn) (hf : T f) (hknown : Known e k f.name) : Agree e T s (t.put f content) :=
  h.change hk hf hknown (fun _ hg => ⟨Function.update_of_ne hg _ _, rfl⟩) rfl rfl rfl

theorem Agree.setLocked {k : ℕ} {f : FileName} {value : Bool} (h : Agree e T s t)
    (hk : k ≤ s.drawn) (hf : T f) (hknown : Known e k f.name) :
    Agree e T s (t.setLocked f value) :=
  h.change hk hf hknown (fun _ hg => ⟨rfl, Function.update_of_ne hg _ _⟩) rfl rfl rfl

end Agree

/-- The program changes nothing but files of `T` whose numbers are known. -/
def Touches (e : Environment τ) (k : ℕ) (T : FileName → Prop) {ε α : Type}
    (m : Prog State ε α) : Prop :=
  ∀ s, k ≤ s.drawn → Keeps (Agree e T s) m

section Touches

variable {k l : ℕ} {T T' : FileName → Prop} {ε ε' α β : Type} {m : Prog State ε α}

theorem Touches.bind {f : α → Prog State ε β} (hm : Touches e k T m)
    (hf : ∀ a, Touches e k T (f a)) : Touches e k T (m >>= f) :=
  fun s hs => (hm s hs).bind fun a => hf a s hs

theorem Touches.pure {a : α} : Touches e k T (pure a : Prog State ε α) := fun _ _ => Keeps.pure

theorem Touches.fail {error : ε} : Touches e k T (fail error : Prog State ε α) :=
  fun _ _ => Keeps.fail

theorem Touches.ofExcept {r : Except ε α} : Touches e k T (Prog.ofExcept r) :=
  fun _ _ => Keeps.ofExcept

theorem Touches.attempt (h : Touches e k T m) :
    Touches e k T (attempt m : Prog State ε' (Except ε α)) :=
  fun s hs => (h s hs).attempt

theorem Touches.mapError {f : ε → ε'} (h : Touches e k T m) : Touches e k T (mapError f m) :=
  fun s hs => (h s hs).mapError

theorem Touches.system {o : Operation} {effect : State → Except IoError α × State}
    {broken : ℕ → State → State}
    (heffect : ∀ s t, k ≤ s.drawn → Agree e T s t → Agree e T s (effect t).2)
    (hbroken : ∀ n s t, k ≤ s.drawn → Agree e T s t → Agree e T s (broken n t)) :
    Touches e k T (system e o effect broken) :=
  fun s hs => Keeps.perform (fun t => heffect s t hs) fun fault t => hbroken fault.residue s t hs

theorem Agree.draw {s t : State} (h : Agree e T s t) :
    Agree e T s { t with drawn := t.drawn + 1 } :=
  { h with
    undrawn := fun n hn => h.undrawn n ((Nat.le_succ _).trans hn)
    drawn := h.drawn.trans (Nat.le_succ _) }

theorem touches_nextU64 : Touches e k T (nextU64 e : Prog State ε ℕ) :=
  fun _ _ => Keeps.bind Keeps.inspect fun _ => Keeps.bind (Keeps.update fun _ => Agree.draw)
    fun _ => Keeps.pure

/-- A number that has been drawn is known from then on. -/
theorem Touches.nextU64_bind {f : ℕ → Prog State ε β}
    (h : ∀ n, k ≤ n → Touches e (n + 1) T (f (e.id n))) : Touches e k T (nextU64 e >>= f) := by
  intro s hs
  unfold nextU64
  refine Meets.of_forall fun t ht => ?_
  have hnext : Agree e T s { t with drawn := t.drawn + 1 } := ht.draw
  refine Meets.bind (Q := fun n u => n = e.id t.drawn ∧ u = { t with drawn := t.drawn + 1 }) ?_ ?_
  · refine Meets.bind (Q := fun n u => n = t.drawn ∧ u = t) (Meets.inspect ?_) fun n => ?_
    · rintro u rfl
      exact ⟨rfl, rfl⟩
    · refine Meets.bind (Q := fun _ u => n = t.drawn ∧ u = { t with drawn := t.drawn + 1 })
        (Meets.update ?_ ?_) fun _ => Meets.pure ?_
      · rintro u ⟨-, rfl⟩
        exact hnext
      · rintro u ⟨hn, rfl⟩
        exact ⟨hn, rfl⟩
      · rintro u ⟨rfl, hu⟩
        exact ⟨rfl, hu⟩
  · intro n
    refine Meets.of_forall fun u ⟨hn, hu⟩ => ?_
    subst hn hu
    have hf := h t.drawn (hs.trans ht.drawn) { t with drawn := t.drawn + 1 } le_rfl
    have hlater : ∀ u, Agree e T { t with drawn := t.drawn + 1 } u → Agree e T s u :=
      fun u hu => hnext.trans hu
    exact Meets.mono hf hlater
      (fun u (hu : u = { t with drawn := t.drawn + 1 }) => by rw [hu]; exact Agree.refl _)
      (fun _ => hlater) fun _ => hlater

/-! ### The operating system -/

theorem touches_quiet {o : Operation} : Touches e k T (quiet e o) :=
  Touches.system (fun _ _ _ => id) fun _ _ _ _ => id

theorem touches_createDirAll {dir : Dir} : Touches e k T (createDirAll e dir) := touches_quiet

theorem touches_syncDir {dir : Dir} : Touches e k T (syncDir e dir) :=
  touches_quiet.bind fun _ => touches_quiet

theorem touches_readFile {f : FileName} : Touches e k T (readFile e f) := by
  refine Touches.system (fun s t _ h => ?_) fun _ _ _ _ => id
  cases t.files f <;> exact h

section File

variable {f : FileName} (hf : T f) (hknown : Known e k f.name)
include hf hknown

theorem touches_createNew : Touches e k T (createNew e f) := by
  refine Touches.system (fun s t hs h => ?_) fun _ _ _ _ => id
  cases t.files f with
  | some _ => exact h
  | none => exact h.put hs hf hknown

theorem touches_writeAll {bytes : Bytes} : Touches e k T (writeAll e f bytes) :=
  Touches.system (fun _ _ hs h => h.put hs hf hknown) fun _ _ _ hs h => h.put hs hf hknown

theorem touches_removeFile : Touches e k T (removeFile e f) := by
  refine Touches.system (fun s t hs h => ?_) fun _ _ _ _ => id
  cases t.files f with
  | some _ => exact h.put hs hf hknown
  | none => exact h

theorem touches_removeIfExists : Touches e k T (removeIfExists e f) := by
  refine (touches_removeFile hf hknown).attempt.bind fun r => ?_
  cases r with
  | ok _ => exact Touches.pure
  | error error =>
    show Touches e k T (if error.kind = .notFound then Pure.pure () else Prog.fail error)
    split_ifs
    · exact Touches.pure
    · exact Touches.fail

theorem touches_rename {target : FileName} (htarget : T target)
    (hknown' : Known e k target.name) : Touches e k T (rename e f target) := by
  refine Touches.system (fun s t hs h => ?_) fun _ _ _ _ => id
  cases t.files f with
  | some _ => exact (h.put hs htarget hknown').put hs hf hknown
  | none => exact h

end File

/-! ### SQLite -/

section Database

variable {name : Name} (hname : ∀ part, part ≠ .lock → T ⟨name, part⟩) (hknown : Known e k name)
include hname hknown

theorem touches_open : Touches e k T (Store.open e name) := by
  have hmain : T ⟨name, .main⟩ := hname _ (by decide)
  have hwal : T ⟨name, .wal⟩ := hname _ (by decide)
  refine fun s hs => Keeps.perform (fun t h => ?_) fun fault t h => ?_
  · cases e.database.view (t.main name) (t.wal name) with
    | none => exact h
    | some _ =>
      exact ((h.put hs hmain hknown).put hs hwal hknown).put hs (hname _ (by decide)) hknown
  · exact (h.put hs hmain hknown).put hs hwal hknown

theorem touches_checkpointWal : Touches e k T (checkpointWal e name) :=
  fun _ hs => Keeps.perform
    (fun _ h => (h.put hs (hname _ (by decide)) hknown).put hs (hname _ (by decide)) hknown)
    fun _ _ h => h.put hs (hname _ (by decide)) hknown

theorem touches_closeConnection : Touches e k T (closeConnection e name : Prog State ε Unit) := by
  have hmain : T ⟨name, .main⟩ := hname _ (by decide)
  have hwal : T ⟨name, .wal⟩ := hname _ (by decide)
  have hshm : T ⟨name, .shm⟩ := hname _ (by decide)
  exact fun _ hs => Keeps.bind (Keeps.attempt (Keeps.perform
    (fun _ h => ((h.put hs hmain hknown).put hs hwal hknown).put hs hshm hknown)
    fun _ _ h => h.put hs hmain hknown)) fun _ => Keeps.pure

theorem touches_commitTransaction {tx : τ} : Touches e k T (commitTransaction e name tx) := by
  have hmain : T ⟨name, .main⟩ := hname _ (by decide)
  have hwal : T ⟨name, .wal⟩ := hname _ (by decide)
  exact fun _ hs => Keeps.perform (fun _ h => (h.put hs hmain hknown).put hs hwal hknown)
    fun _ _ h => (h.put hs hmain hknown).put hs hwal hknown

theorem touches_removeWalSiblings : Touches e k T (removeWalSiblings e name) :=
  (touches_removeIfExists (hname _ (by decide)) hknown).bind fun _ =>
    touches_removeIfExists (hname _ (by decide)) hknown

theorem touches_cleanupCandidates {files : List FileName}
    (hfiles : ∀ f ∈ files, f.name = name ∧ f.part ≠ .lock) :
    Touches e k T (cleanupCandidates e files) := by
  induction files with
  | nil => exact Touches.pure
  | cons f rest ih =>
    obtain ⟨hf, hpart⟩ := hfiles f List.mem_cons_self
    have hfirst : Touches e k T (removeIfExists e f) := by
      subst hf
      exact touches_removeIfExists (hname f.part hpart) hknown
    have hrest := ih fun g hg => hfiles g (List.mem_cons_of_mem _ hg)
    refine hfirst.attempt.bind fun r => hrest.attempt.bind fun _ => ?_
    cases r with
    | ok _ => exact Touches.ofExcept
    | error _ => exact Touches.fail

theorem touches_cleanupInitializer : Touches e k T (cleanupInitializer e name) :=
  touches_cleanupCandidates hname hknown (by simp)

theorem touches_cleanupPlainTemp : Touches e k T (cleanupPlainTemp e name) := by
  refine (touches_removeWalSiblings hname hknown).attempt.bind fun siblings =>
    (touches_removeIfExists (hname _ (by decide)) hknown).attempt.bind fun r => ?_
  cases r with
  | ok _ => exact Touches.pure.bind fun _ => Touches.pure.bind fun _ => Touches.ofExcept
  | error _ => exact Touches.pure.bind fun _ => Touches.fail

end Database

/-! ### Locks -/

theorem touches_acquire {name : Name} (hlock : T ⟨name, .lock⟩) (hknown : Known e k name) :
    Touches e k T (DbLock.acquire e name) := by
  refine Touches.mapError (Touches.bind (Touches.system (fun _ _ hs h => h.put hs hlock hknown)
    fun _ _ _ _ => id) fun _ => Touches.bind (Touches.system (fun s t hs h => ?_)
      fun _ _ _ _ => id) fun _ => Touches.pure)
  show Agree e T s (if t.locked ⟨name, .lock⟩ then (_, t) else (_, t.setLocked _ true)).2
  split_ifs
  · exact h
  · exact h.setLocked hs hlock hknown

theorem touches_drop {lock : DbLock} (hlock : T lock.path) (hknown : Known e k lock.path.name) :
    Touches e k T (lock.drop : Prog State ε Unit) :=
  fun _ hs => Keeps.update fun _ h => h.setLocked hs hlock hknown

theorem touches_close {lock : DbLock} (hlock : T lock.path) (hknown : Known e k lock.path.name) :
    Touches e k T (lock.close e) :=
  Touches.mapError (Touches.system (fun _ _ hs h => h.setLocked hs hlock hknown) fun _ _ _ _ => id)

/-- The lock of a decrypted database, as its registration keeps it. -/
def tempLockOf (name : Name) : DbLock := ⟨⟨name, .lock⟩⟩

section Lock

variable {name : Name} (hname : ∀ part, T ⟨name, part⟩) (hknown : Known e k name)
include hname hknown

theorem touches_cleanupTempLockAfterMain :
    Touches e k T (cleanupTempLockAfterMain e name (some (tempLockOf name)) :
      Prog State ε Unit) := by
  refine (touches_close (hname _) hknown).attempt.bind fun r => ?_
  cases r with
  | error _ => exact Touches.pure
  | ok _ => exact (touches_removeIfExists (hname _) hknown).attempt.bind fun _ => Touches.pure

theorem touches_dropTempLock :
    Touches e k T (dropOptional (some (tempLockOf name)) : Prog State ε Unit) :=
  touches_drop (hname _) hknown

theorem touches_cleanupPlainTempWithLock :
    Touches e k T (cleanupPlainTempWithLock e name (some (tempLockOf name))) := by
  refine (touches_removeWalSiblings (fun part _ => hname part) hknown).attempt.bind fun siblings =>
    (touches_removeIfExists (hname _) hknown).attempt.bind fun r => ?_
  cases r with
  | ok _ =>
    exact (touches_cleanupTempLockAfterMain hname hknown).bind fun _ =>
      (touches_dropTempLock hname hknown).bind fun _ => Touches.ofExcept
  | error _ => exact (touches_dropTempLock hname hknown).bind fun _ => Touches.fail

end Lock

theorem touches_withCleanup {step text : String} {error : EncryptedStoreError}
    {cleanup : Prog State IoError Unit} (h : Touches e k T cleanup) :
    Touches e k T (withCleanup step error text cleanup : Prog State EncryptedStoreError α) := by
  refine h.attempt.bind fun r => ?_
  cases r <;> exact Touches.fail

theorem touches_cleanupRecoveryPaths {paths : List FileName} (hpaths : ∀ p ∈ paths, T p)
    (hknown : ∀ p ∈ paths, Known e k p.name) : Touches e k T (cleanupRecoveryPaths e paths) := by
  induction paths with
  | nil => exact Touches.pure
  | cons p rest ih =>
    exact (touches_removeIfExists (hpaths p List.mem_cons_self)
      (hknown p List.mem_cons_self)).bind fun _ =>
        ih (fun q hq => hpaths q (List.mem_cons_of_mem _ hq))
          fun q hq => hknown q (List.mem_cons_of_mem _ hq)

/-! ### Envelopes -/

theorem touches_currentMasterKey : Touches e k T (currentMasterKey e) :=
  Touches.mapError (Touches.system (fun _ _ _ => id) fun _ _ _ _ => id)

theorem touches_fillBytes {bytes : ℕ → Bytes} : Touches e k T (fillBytes e bytes) :=
  Touches.mapError (Touches.system (fun _ _ _ h => h.draw) fun _ _ _ _ => id)

theorem touches_encryptV3 {plaintext masterKey : Bytes} :
    Touches e k T (encryptV3 e plaintext masterKey) :=
  Touches.ofExcept.bind fun _ => touches_fillBytes.bind fun _ => touches_fillBytes.bind fun _ =>
    (Touches.mapError (Touches.system (fun _ _ _ => id) fun _ _ _ _ => id)).bind fun _ =>
      Touches.ofExcept

/-! ### Replacing the canonical file -/

/-- The files of a transition, beside its target. -/
def Transit (f : FileName) : Prop :=
  ∃ id, f = ⟨.writing id, .main⟩ ∨ f = ⟨.recovery id, .main⟩

theorem touches_writeReplacement {f : FileName} {ciphertext : Bytes} (hf : T f)
    (hknown : Known e k f.name) : Touches e k T (writeReplacement e f ciphertext) :=
  (touches_createNew hf hknown).bind fun _ => touches_quiet.bind fun _ =>
    (touches_writeAll hf hknown).bind fun _ => touches_quiet

theorem touches_writeRecovery {f : FileName} {ciphertext : Bytes} (hf : T f)
    (hknown : Known e k f.name) : Touches e k T (writeRecovery e f ciphertext) :=
  (touches_createNew hf hknown).bind fun _ => (touches_writeAll hf hknown).bind fun _ =>
    touches_quiet

theorem touches_atomicTransition (hcanonical : T canonicalFile) (hT : ∀ f, Transit f → T f)
    {ciphertext : Bytes} :
    Touches e k T (atomicTransitionWithRecovery e canonicalFile ciphertext) := by
  refine (touches_createDirAll.mapError).bind fun _ => Touches.nextU64_bind fun n hn => ?_
  have hw : T ⟨.writing (e.id n), .main⟩ := hT _ ⟨_, .inl rfl⟩
  have hr : T ⟨.recovery (e.id n), .main⟩ := hT _ ⟨_, .inr rfl⟩
  have hkw : Known e (n + 1) (.writing (e.id n)) := known_of_number rfl
  have hkr : Known e (n + 1) (.recovery (e.id n)) := known_of_number rfl
  refine (touches_writeReplacement hw hkw).attempt.bind fun r => ?_
  cases r with
  | error _ =>
    refine (touches_removeIfExists hw hkw).attempt.bind fun r => ?_
    cases r <;> exact Touches.fail
  | ok _ =>
    refine (touches_rename hw hkw hcanonical (known_canonical _)).attempt.bind fun r => ?_
    cases r with
    | error _ =>
      refine (touches_rename hw hkw hr hkr).attempt.bind fun r => ?_
      cases r <;> exact Touches.fail
    | ok _ =>
      refine touches_syncDir.attempt.bind fun r => ?_
      cases r with
      | ok _ => exact Touches.pure
      | error _ =>
        refine (touches_writeRecovery hr hkr).attempt.bind fun r => ?_
        cases r with
        | ok _ => exact Touches.fail
        | error _ =>
          refine (touches_removeIfExists hr hkr).attempt.bind fun r => ?_
          cases r <;> exact Touches.fail

end Touches

end EraseMe.EncryptedStore
