import EraseMe.Storage.StoreClose

/-!
# Runs of an encrypted store

Whatever fails and whenever: a transaction that has been committed stays in the canonical file or in
the registered database under the lock (`committed_survives`).  A closing that failed is made good by
`finaliseAll`, unless what failed was the removal of a sidecar (`finaliseAll_retries_iff`).
-/

namespace EraseMe.EncryptedStore

open Encryption Faulty Faulty.Prog

variable {τ : Type} {e : Environment τ}

/-- The canonical file decrypts to a database with the transaction. -/
def CanonicalHolds (e : Environment τ) (tx : τ) (s : State) : Prop :=
  ∃ raw plain transactions, s.files canonicalFile = some raw ∧
    decryptAny e.crypto raw e.masterKey = .ok plain ∧
      e.database.view plain [] = some transactions ∧ tx ∈ transactions

/-- The registered temporary database is there with the transaction, and the database is locked by
the store or by the registration. -/
def TempHolds (e : Environment τ) (tx : τ) (s : State) : Prop :=
  ∃ r transactions, s.encryptedTemps = some r ∧ s.files ⟨r.tmpPath, .main⟩ ≠ none ∧
    e.database.view (s.main r.tmpPath) (s.wal r.tmpPath) = some transactions ∧
      tx ∈ transactions ∧ LockHeld s

/-- The transaction is not lost. -/
def Safe (e : Environment τ) (tx : τ) (s : State) : Prop :=
  CanonicalHolds e tx s ∨ TempHolds e tx s

theorem Guarded.safe {db : List τ} {tx : τ} {s : State} (h : Guarded e db s) (htx : tx ∈ db) :
    Safe e tx s := by
  rcases h with ⟨raw, hraw, ⟨plain, hplain, hview⟩, -⟩ | ⟨r, hr, hholds, hlock⟩
  · exact .inl ⟨raw, plain, db, hraw, hplain, hview, htx⟩
  · exact .inr ⟨r, db, hr, hholds.1, hholds.2, htx, hlock⟩

/-- A store whose closing failed waits with its database, or only a sidecar is left to remove. -/
def Kept (e : Environment τ) (i : ℕ) (db : List τ) (s : State) : Prop :=
  Holds e (.decrypted i) db s ∨ Sealed e db s ∧ s.files ⟨.decrypted i, .main⟩ = none

theorem Left.kept {i : ℕ} {db : List τ} {s : State} (h : Left e i db s) : Kept e i db s := by
  rcases h with ⟨hholds, -⟩ | ⟨hsealed, hgone, -⟩
  · exact .inl hholds
  · exact .inr ⟨hsealed, hgone⟩

theorem stable_kept {T : FileName → Prop} {i : ℕ} {db : List τ}
    (hdecrypted : ∀ part, part ≠ .lock → ¬ T ⟨.decrypted i, part⟩)
    (hcanonical : ¬ T canonicalFile) : Stable e T (Kept e i db) := by
  rintro s t h (hholds | ⟨hsealed, hgone⟩)
  · exact .inl (stable_holds (hdecrypted _ (by decide)) (hdecrypted _ (by decide)) s t h hholds)
  · exact .inr ⟨stable_sealed hcanonical s t h hsealed,
      stable_file (hdecrypted _ (by decide)) s t h hgone⟩

theorem Retained.guarded {i : ℕ} {db : List τ} {s : State} (h : Retained e i s)
    (hkept : Kept e i db s) : Guarded e db s := by
  obtain ⟨paths, hbase, -⟩ := h
  rcases hkept with hholds | hsealed
  · exact .inr ⟨_, hbase.1.2.1, hholds, hbase.2, .inr ⟨_, hbase.1.2.1, rfl⟩⟩
  · exact .inl hsealed.1

theorem Retained.stores {i : ℕ} {s : State} (h : Retained e i s) : s.stores = [] := by
  obtain ⟨paths, hbase, -⟩ := h
  exact hbase.1.2.2

theorem Opened.guarded {i : ℕ} {db : List τ} {s : State} (h : Opened e i db s) :
    Guarded e db s := by
  have hclosing : Closing e s.drawn i (some (.decrypted i)) s := ⟨⟨h.1, h.2.1⟩, le_rfl⟩
  exact hclosing.guarded h.2.2.2

/-! ### One call -/

section Calls

variable {committed : List τ}

/-- The states between two calls that have committed the transactions. -/
def Phase (e : Environment τ) (committed : List τ) (s : State) : Prop :=
  (Idle e s ∧ (committed = [] ∨ ∃ db, Sealed e db s ∧ committed ⊆ db)) ∨
    (∃ i db, Opened e i db s ∧ committed ⊆ db) ∨
      ∃ i db, (Retained e i s ∧ Kept e i db s) ∧ committed ⊆ db

/-- No committed transaction is lost. -/
def AllSafe (e : Environment τ) (committed : List τ) (s : State) : Prop :=
  ∀ tx ∈ committed, Safe e tx s

theorem Guarded.allSafe {db : List τ} {s : State} (h : Guarded e db s) (hdb : committed ⊆ db) :
    AllSafe e committed s :=
  fun _ htx => h.safe (hdb htx)

/-- The lock of an open or a retained store keeps others from opening it. -/
theorem meets_openEncrypted_locked {F : State → Prop} {db : List τ}
    (hF : Stable e (fun f => f = canonicalLock) F)
    (hguarded : ∀ s, F s → s.locked canonicalLock = true → Guarded e db s) :
    Meets (Guarded e db) (fun s => F s ∧ s.locked canonicalLock = true) (openEncrypted e)
      (fun _ _ => False) fun _ s => F s ∧ s.locked canonicalLock = true :=
  (meets_openEncrypted_held hF).mono (fun s hs => hguarded s hs.1 hs.2) (fun _ => id)
    (fun _ _ => id) fun _ _ => id

theorem meets_openEncrypted_opened {i : ℕ} {db : List τ} :
    Meets (Guarded e db) (Opened e i db) (openEncrypted e) (fun _ _ => False)
      fun _ => Opened e i db := by
  let F : State → Prop := fun s => Base e (some (activeTemp i))
    [openedStore i (some (.decrypted i))] s ∧ Known e s.drawn (.decrypted i) ∧
      Holds e (.decrypted i) db s
  have hF : Stable e (fun f => f = canonicalLock) F :=
    stable_base.and (stable_known.and (stable_holds (by simp [canonicalLock])
      (by simp [canonicalLock])))
  refine (meets_openEncrypted_locked hF fun s hs hlocked => ?_).mono (fun _ => id)
    (fun s hs => ⟨⟨hs.1, hs.2.2⟩, hs.2.1⟩) (fun _ _ => False.elim)
    fun _ s hs => ⟨hs.1.1, hs.2, hs.1.2⟩
  exact Opened.guarded ⟨hs.1, hlocked, hs.2⟩

/-- A store whose closing failed is not opened again before it is finalised. -/
theorem meets_openEncrypted_retained {i : ℕ} {K : State → Prop}
    (hK : Stable e (fun f => f = canonicalLock) K) :
    Meets (fun s => Retained e i s ∧ K s) (fun s => Retained e i s ∧ K s) (openEncrypted e)
      (fun _ _ => False) fun _ s => Retained e i s ∧ K s := by
  let F : State → Prop := fun s => (∃ paths, Base e (some (retainedTemp i paths)) [] s ∧
    Known e s.drawn (.decrypted i) ∧ Recoverable e paths s) ∧ K s
  have hretained (s : State) (hs : F s ∧ s.locked canonicalLock = true) :
      Retained e i s ∧ K s := by
    obtain ⟨⟨⟨paths, hbase, hknown, hpaths⟩, hkept⟩, hlocked⟩ := hs
    exact ⟨⟨paths, ⟨hbase, hlocked⟩, hknown, hpaths⟩, hkept⟩
  have hF : Stable e (fun f => f = canonicalLock) F := by
    refine Stable.and ?_ hK
    rintro s t h ⟨paths, hs⟩
    exact ⟨paths, (stable_base.and (stable_known.and stable_recoverable)) s t h hs⟩
  refine (meets_openEncrypted_held hF).mono hretained ?_ (fun _ _ => False.elim)
    fun _ => hretained
  rintro s ⟨⟨paths, hbase, hknown, hpaths⟩, hkept⟩
  exact ⟨⟨⟨paths, hbase.1, hknown, hpaths⟩, hkept⟩, hbase.2⟩

theorem phase_opened {i : ℕ} {db : List τ} {s : State} (h : Opened e i db s)
    (hdb : committed ⊆ db) : Phase e committed s :=
  .inr (.inl ⟨i, db, h, hdb⟩)

theorem phase_retained {i : ℕ} {db : List τ} {s : State} (h : Retained e i s ∧ Left e i db s)
    (hdb : committed ⊆ db) : Phase e committed s :=
  .inr (.inr ⟨i, db, ⟨h.1, h.2.kept⟩, hdb⟩)

theorem phase_closed {i : ℕ} {db : List τ} {s : State}
    (h : Idle e s ∧ Sealed e db s ∧ Gone (.decrypted i) s) (hdb : committed ⊆ db) :
    Phase e committed s :=
  .inl ⟨h.1, .inr ⟨db, h.2.1, hdb⟩⟩

/-- Fewer transactions need less. -/
theorem Phase.mono {fewer : List τ} {s : State} (h : Phase e committed s)
    (hfewer : fewer ⊆ committed) : Phase e fewer s := by
  rcases h with ⟨hidle, hnil | ⟨db, hsealed, hdb⟩⟩ | ⟨i, db, h, hdb⟩ | ⟨i, db, h, hdb⟩
  · exact .inl ⟨hidle, .inl (List.subset_nil.mp (hnil ▸ hfewer))⟩
  · exact .inl ⟨hidle, .inr ⟨db, hsealed, List.Subset.trans hfewer hdb⟩⟩
  · exact .inr (.inl ⟨i, db, h, List.Subset.trans hfewer hdb⟩)
  · exact .inr (.inr ⟨i, db, h, List.Subset.trans hfewer hdb⟩)

/-- What holds after a call from each of the phases holds after a call. -/
theorem meets_phase {ε α : Type} {I : State → Prop} {m : Prog State ε α} {Q : α → State → Prop}
    {E : ε → State → Prop}
    (hnew : committed = [] → Meets I (Idle e) m Q E)
    (hidle : ∀ db, committed ⊆ db → Meets I (fun s => Idle e s ∧ Sealed e db s) m Q E)
    (hopened : ∀ i db, committed ⊆ db → Meets I (Opened e i db) m Q E)
    (hretained : ∀ i db, committed ⊆ db →
      Meets I (fun s => Retained e i s ∧ Kept e i db s) m Q E) :
    Meets I (Phase e committed) m Q E := by
  intro w hw
  rcases hw with ⟨hw, hnil | ⟨db, hsealed, hdb⟩⟩ | ⟨i, db, hw, hdb⟩ | ⟨i, db, hw, hdb⟩
  · exact hnew hnil w hw
  · exact hidle db hdb w ⟨hw, hsealed⟩
  · exact hopened i db hdb w hw
  · exact hretained i db hdb w hw

theorem meets_openEncrypted_phase :
    Meets (AllSafe e committed) (Phase e committed) (openEncrypted e)
      (fun _ => Phase e committed) fun _ => Phase e committed := by
  refine meets_phase (fun hnil => ?_) (fun db hdb => ?_) (fun i db hdb => ?_) fun i db hdb => ?_
  · refine (meets_openEncrypted : Meets (SealedAs e none) _ _ _ _).mono (fun s _ tx htx => ?_)
      (fun s hs => ⟨hs, sealedAs_none s⟩) (fun _ s hs => ?_) fun _ s hs => .inl ⟨hs.1.1, .inl hnil⟩
    · rw [hnil] at htx
      cases htx
    · obtain ⟨i, db, hopened, -⟩ := hs
      exact phase_opened hopened (hnil ▸ List.nil_subset db)
  · have hsealed (s : State) (hs : SealedAs e (some db) s) : Sealed e db s := hs db rfl
    refine (meets_openEncrypted : Meets (SealedAs e (some db)) _ _ _ _).mono
      (fun s hs => Guarded.allSafe (.inl (hsealed s hs)) hdb) (fun s hs => ⟨hs.1, ?_⟩)
      (fun _ s hs => ?_) fun _ s hs => .inl ⟨hs.1.1, .inr ⟨db, hsealed s hs.1.2, hdb⟩⟩
    · intro db' hdb'
      rw [← Option.some.inj hdb']
      exact hs.2
    · obtain ⟨i, db', hopened, hsame⟩ := hs
      exact phase_opened hopened (hsame db rfl ▸ hdb)
  · exact meets_openEncrypted_opened.mono (fun _ hs => hs.allSafe hdb) (fun _ => id)
      (fun _ _ => False.elim) fun _ _ hs => phase_opened hs hdb
  · have hkept : Stable e (fun f => f = canonicalLock) (Kept e i db) :=
      stable_kept (fun part _ => by simp [canonicalLock]) (by simp [canonicalFile, canonicalLock])
    exact (meets_openEncrypted_retained hkept).mono
      (fun _ hs => (hs.1.guarded hs.2).allSafe hdb) (fun _ => id)
      (fun _ _ => False.elim) fun _ _ hs => .inr (.inr ⟨i, db, hs, hdb⟩)

/-- A call on a store is a call on the `n`-th one, if there is one. -/
theorem meets_withStore {I P : State → Prop} {n : ℕ} {f : Store → Prog State CallError Unit}
    {stores : List Store} {Q : Unit → State → Prop} {E : CallError → State → Prop}
    (hstores : ∀ s, P s → s.stores = stores) (hnone : ∀ s, P s → E .noStore s)
    (hsome : ∀ store, stores[n]? = some store → Meets I P (f store) Q E) :
    Meets I P (withStore n f) Q E := by
  refine Meets.bind (Q := fun found s => found = stores[n]? ∧ P s)
    (Meets.inspect fun s hs => ⟨by rw [hstores s hs], hs⟩) fun found => Meets.of_and ?_
  rintro rfl
  cases hfound : stores[n]? with
  | none => exact Meets.fail hnone
  | some store => exact hsome store hfound

/-- Where no store is open, a call on a store does nothing. -/
theorem meets_withStore_nil {I P : State → Prop} {n : ℕ} {f : Store → Prog State CallError Unit}
    {Q : Unit → State → Prop} (hstores : ∀ s, P s → s.stores = []) :
    Meets I P (withStore n f) Q fun _ => P :=
  meets_withStore hstores (fun _ => id) fun store hstore => by simp at hstore

/-- A call on the store that is open. -/
theorem meets_withStore_opened {I : State → Prop} {n i : ℕ} {db : List τ}
    {f : Store → Prog State CallError Unit} {Q : Unit → State → Prop}
    (hdb : committed ⊆ db)
    (hf : n = 0 → Meets I (Opened e i db) (f (openedStore i (some (.decrypted i)))) Q
      fun _ => Phase e committed) :
    Meets I (Opened e i db) (withStore n f) Q fun _ => Phase e committed := by
  refine meets_withStore (fun _ hs => hs.1.2.2) (fun _ hs => phase_opened hs hdb)
    fun store hstore => ?_
  cases n with
  | zero =>
    obtain rfl : openedStore i (some (.decrypted i)) = store := Option.some.inj hstore
    exact hf rfl
  | succ n => simp at hstore

/-- A commit keeps what was committed; if it returns its transaction is committed. -/
theorem meets_commit_phase {n : ℕ} {tx : τ} :
    Meets (AllSafe e committed) (Phase e committed) (Call.run e (.commit n tx))
      (fun _ => Phase e (tx :: committed)) fun _ => Phase e committed := by
  refine meets_phase (fun hnil => ?_) (fun db hdb => ?_) (fun i db hdb => ?_) fun i db hdb => ?_
  · exact (meets_withStore_nil fun s (hs : Idle e s) => hs.1.2.2).post (fun _ _ => id)
      fun _ s hs => .inl ⟨hs, .inl hnil⟩
  · exact (meets_withStore_nil fun s (hs : Idle e s ∧ Sealed e db s) => hs.1.1.2.2).post
      (fun _ _ => id) fun _ s hs => .inl ⟨hs.1, .inr ⟨db, hs.2, hdb⟩⟩
  · refine meets_withStore_opened hdb fun _ => Meets.mapError
      (E := fun _ => Phase e committed) ?_ fun _ _ => id
    refine Meets.of_forall fun s hs => ?_
    have hF : Stable e (fun f => f.name = .decrypted i) fun t => (Base e (some (activeTemp i))
        [openedStore i (some (.decrypted i))] t ∧ t.locked canonicalLock = true) ∧
          Known e t.drawn (.decrypted i) ∧ s.drawn ≤ t.drawn :=
      (stable_base.and (stable_locked (by simp [canonicalLock]))).and
        (stable_known.and stable_drawn)
    have hopened {db' : List τ} (t : State) (ht : ((Base e (some (activeTemp i))
        [openedStore i (some (.decrypted i))] t ∧ t.locked canonicalLock = true) ∧
          Known e t.drawn (.decrypted i) ∧ s.drawn ≤ t.drawn) ∧ Holds e (.decrypted i) db' t) :
        Opened e i db' t := ⟨ht.1.1.1, ht.1.1.2, ht.1.2.1, ht.2⟩
    refine ((touches_commitTransaction (fun _ _ => rfl) hs.2.2.1).frame_meets
      meets_commitTransaction hF fun _ ht => ht.2.2).mono (fun t ht => ?_) ?_
        (fun _ t ht => phase_opened (hopened t ht) ?_) fun _ t ht => phase_opened (hopened t ht) hdb
    · rcases ht.2 with hholds | hholds
      · exact (hopened t ⟨ht.1, hholds⟩).guarded.allSafe hdb
      · exact (hopened t ⟨ht.1, hholds⟩).guarded.allSafe
          (List.Subset.trans hdb (List.subset_append_left db [tx]))
    · rintro t rfl
      exact ⟨⟨⟨hs.1, hs.2.1⟩, hs.2.2.1, le_rfl⟩, hs.2.2.2⟩
    · exact List.cons_subset.mpr ⟨List.mem_append_right db (List.mem_singleton_self tx),
        List.Subset.trans hdb (List.subset_append_left db [tx])⟩
  · exact (meets_withStore_nil fun s (hs : Retained e i s ∧ Kept e i db s) => hs.1.stores).post
      (fun _ _ => id) fun _ s hs => .inr (.inr ⟨i, db, hs, hdb⟩)

theorem meets_closeStore_phase (hc : e.crypto.Correct) {n : ℕ} :
    Meets (AllSafe e committed) (Phase e committed) (Call.run e (.closeStore n))
      (fun _ => Phase e committed) fun _ => Phase e committed := by
  refine meets_phase (fun hnil => ?_) (fun db hdb => ?_) (fun i db hdb => ?_) fun i db hdb => ?_
  · exact (meets_withStore_nil fun s (hs : Idle e s) => hs.1.2.2).post (fun _ _ => id)
      fun _ s hs => .inl ⟨hs, .inl hnil⟩
  · exact (meets_withStore_nil fun s (hs : Idle e s ∧ Sealed e db s) => hs.1.1.2.2).post
      (fun _ _ => id) fun _ s hs => .inl ⟨hs.1, .inr ⟨db, hs.2, hdb⟩⟩
  · refine meets_withStore_opened hdb fun hn => ?_
    rw [hn]
    refine Meets.mapError (E := fun _ => Phase e committed) ?_ fun _ _ => id
    refine Meets.of_forall fun s hs => ?_
    refine (meets_closeStore hc hs.2.2.1).mono (fun _ ht => ht.allSafe hdb) ?_
      (fun _ _ ht => phase_closed ht hdb) fun _ _ ht => phase_retained ht hdb
    rintro t rfl
    exact ⟨⟨⟨hs.1, hs.2.1⟩, le_rfl⟩, hs.2.2.2⟩
  · exact (meets_withStore_nil fun s (hs : Retained e i s ∧ Kept e i db s) => hs.1.stores).post
      (fun _ _ => id) fun _ s hs => .inr (.inr ⟨i, db, hs, hdb⟩)

/-- Finalising, where the registration is known. -/
theorem meets_finaliseAll {I P : State → Prop} {registration : Option RegisteredTemp}
    {Q : Unit → State → Prop} {E : List EncryptedStoreError → State → Prop}
    (hregistration : ∀ s, P s → s.encryptedTemps = registration)
    (hnone : registration = none → ∀ s, P s → Q () s)
    (hactive : ∀ r, registration = some r → r.active = true → ∀ s, P s → ∀ errors, E errors s)
    (hwaiting : ∀ r, registration = some r → r.active = false →
      Meets I P (finaliseOne e r) Q fun error => E [error]) :
    Meets I P (finaliseAll e) Q E := by
  refine Meets.bind (Q := fun found s => found = registration ∧ P s)
    (Meets.inspect fun s hs => ⟨hregistration s hs, hs⟩) fun found => Meets.of_and ?_
  rintro rfl
  cases hr : found with
  | none => exact Meets.pure (hnone hr)
  | some r =>
    show Meets I P (if r.active then fail [_] else mapError _ (finaliseOne e r)) Q E
    split_ifs with h
    · exact Meets.fail fun s hs => hactive r hr h s hs _
    · exact Meets.mapError (hwaiting r hr (Bool.eq_false_iff.mpr h)) fun _ _ => id

theorem meets_finaliseOne_retained (hc : e.crypto.Correct) {i : ℕ} {db : List τ}
    {paths : List FileName} {s : State} (hs : Retained e i s ∧ Kept e i db s)
    (hpaths : s.encryptedTemps = some (retainedTemp i paths)) :
    Meets (Guarded e db) (fun t => t = s) (finaliseOne e (retainedTemp i paths))
      (fun _ t => Idle e t ∧ Sealed e db t ∧ Gone (.decrypted i) t)
      fun _ t => Retained e i t ∧ Kept e i db t := by
  obtain ⟨⟨paths', hbase, hknown, hrecoverable⟩, hkept⟩ := hs
  have hsame := hbase.1.2.1.symm.trans hpaths
  rw [Option.some.injEq] at hsame
  rw [← hsame]
  have hwaiting : Waiting e s.drawn i paths' s := ⟨⟨hbase, le_rfl⟩, hrecoverable⟩
  rcases hkept with hholds | ⟨hsealed, hgone⟩
  · refine (meets_finaliseOne hc hknown).mono (fun _ => id) ?_ (fun _ _ => id)
      fun _ t ht => ⟨ht.1, ht.2.kept⟩
    rintro t rfl
    exact ⟨hwaiting, hholds⟩
  · have hW : Custody e s.drawn i db (Waiting e s.drawn i paths') := custody_waiting
    have hF : Stable e (fun _ => False) fun t => Waiting e s.drawn i paths' t ∧ Sealed e db t :=
      (hW.stable _ id).and (stable_sealed id)
    refine (meets_finaliseOne_gone hF (r := retainedTemp i paths')).mono (fun _ ht => .inl ht.2) ?_
      (fun _ _ => False.elim) fun _ t ht => ⟨ht.1.1.retained hknown, .inr ⟨ht.1.2, ht.2⟩⟩
    rintro t rfl
    exact ⟨⟨hwaiting, hsealed⟩, hgone⟩

theorem meets_finaliseAll_phase (hc : e.crypto.Correct) :
    Meets (AllSafe e committed) (Phase e committed) (finaliseAll e)
      (fun _ => Phase e committed) fun _ => Phase e committed := by
  refine meets_phase (fun hnil => ?_) (fun db hdb => ?_) (fun i db hdb => ?_) fun i db hdb => ?_
  · refine meets_finaliseAll (fun s (hs : Idle e s) => hs.1.2.1)
      (fun _ s hs => .inl ⟨hs, .inl hnil⟩) (fun r hr => by cases hr) fun r hr => by cases hr
  · refine meets_finaliseAll (fun s (hs : Idle e s ∧ Sealed e db s) => hs.1.1.2.1)
      (fun _ s hs => .inl ⟨hs.1, .inr ⟨db, hs.2, hdb⟩⟩) (fun r hr => by cases hr)
      fun r hr => by cases hr
  · refine meets_finaliseAll (fun s (hs : Opened e i db s) => hs.1.2.1) (fun h => by cases h)
      (fun _ _ _ s hs _ => phase_opened hs hdb) fun r hr hactive => ?_
    obtain rfl := Option.some.inj hr
    cases hactive
  · refine Meets.of_forall fun s hs => ?_
    obtain ⟨paths, hbase, -⟩ := hs.1
    have htemps (t : State) (ht : t = s) : t.encryptedTemps = some (retainedTemp i paths) := by
      rw [ht]
      exact hbase.1.2.1
    refine meets_finaliseAll htemps (fun h => by cases h) (fun r hr hactive => ?_) fun r hr _ => ?_
    · obtain rfl := Option.some.inj hr
      cases hactive
    · obtain rfl := Option.some.inj hr
      exact (meets_finaliseOne_retained hc hs hbase.1.2.1).mono (fun _ ht => ht.allSafe hdb)
        (fun _ => id) (fun _ _ ht => phase_closed ht hdb)
        fun _ _ ht => .inr (.inr ⟨i, db, ht, hdb⟩)

/-- Each call keeps what was committed, at every moment. -/
theorem meets_call (hc : e.crypto.Correct) (call : Call τ) :
    Meets (AllSafe e committed) (Phase e committed) (call.run e)
      (fun _ => Phase e committed) fun _ => Phase e committed := by
  cases call with
  | openEncrypted => exact Meets.mapError meets_openEncrypted_phase fun _ _ => id
  | commit n tx =>
    exact meets_commit_phase.post (fun _ _ hs => hs.mono (List.subset_cons_self tx committed))
      fun _ _ => id
  | closeStore n => exact meets_closeStore_phase hc
  | finaliseAll => exact Meets.mapError (meets_finaliseAll_phase hc) fun _ _ => id

/-- Between two calls nothing is lost either. -/
theorem Phase.allSafe {s : State} (h : Phase e committed s) : AllSafe e committed s := by
  rcases h with ⟨-, hnil | ⟨db, hsealed, hdb⟩⟩ | ⟨i, db, h, hdb⟩ | ⟨i, db, h, hdb⟩
  · intro tx htx
    rw [hnil] at htx
    cases htx
  · exact Guarded.allSafe (.inl hsealed) hdb
  · exact h.guarded.allSafe hdb
  · exact (h.1.guarded h.2).allSafe hdb

end Calls

/-! ### Runs -/

/-- Whatever fails in a run, it passes through states only that keep what was committed. -/
theorem run_phase (hc : e.crypto.Correct) {committed : List τ} :
    ∀ (calls : List (Faults × Call τ)) (w : World State), Phase e committed w.state →
      Phase e committed (run e calls w).state ∧
        ∃ passed, (run e calls w).moments = passed ++ w.moments ∧
          ∀ s ∈ passed, AllSafe e committed s := by
  intro calls
  induction calls with
  | nil => exact fun w hw => ⟨hw, [], rfl, by simp⟩
  | cons c rest ih =>
    obtain ⟨faults, call⟩ := c
    intro w hw
    obtain ⟨⟨passed, hpassed, hall⟩, hends⟩ :=
      (meets_call (e := e.under faults) hc call : Meets (AllSafe (e.under faults) committed)
        (Phase (e.under faults) committed) (call.run (e.under faults)) _ _) w hw
    have hnext : Phase e committed (call.run (e.under faults) w).2.state := by
      cases hr : (call.run (e.under faults) w).1 with
      | ok a =>
        rw [hr] at hends
        exact hends
      | error error =>
        rw [hr] at hends
        exact hends
    obtain ⟨hlast, later, hlater, hall'⟩ := ih _ hnext
    refine ⟨hlast, later ++ passed, ?_, fun s hs => ?_⟩
    · show (run e rest _).moments = _
      rw [hlater, hpassed, List.append_assoc]
    · rcases List.mem_append.mp hs with h | h
      · exact hall' s h
      · exact hall s h

/-! ### A sample -/

/-- A store with the sample engine and the sample primitives. -/
def sampleStores : Environment UInt8 where
  faults := noFaults
  database := WriteAhead.Sample.database
  crypto := sampleCrypto
  masterKey := List.replicate 32 17
  length_masterKey := by decide
  salt _ := List.replicate 16 34
  length_salt _ := by decide
  iv _ := List.replicate 16 51
  length_iv _ := by decide
  now _ := 0
  id := id
  id_injective := Function.injective_id
  display file := reprStr file

/-- No files and no stores. -/
def emptyWorld : World State := ⟨⟨fun _ => none, fun _ => false, none, [], 0⟩, 0, []⟩

/-- One operation fails whenever it is tried. -/
def failing (o : Operation) : Faults :=
  fun _ o' => if o' = o then some ⟨"Input/output error (os error 5)", none, 3⟩ else none

theorem eq_of_failing {o o' : Operation} {k : ℕ} (h : failing o k o' ≠ none) : o' = o := by
  by_contra hne
  exact h (if_neg hne)

theorem idle_emptyWorld : Idle e emptyWorld.state :=
  ⟨⟨fun _ _ _ _ => ⟨rfl, rfl⟩, rfl, rfl⟩, rfl⟩

theorem eq_ok_of_toBool {ε : Type} {r : Except ε Unit} (h : r.toBool = true) : r = .ok () := by
  cases r with
  | ok _ => rfl
  | error _ => cases h

theorem ne_ok_of_toBool {ε : Type} {r : Except ε Unit} (h : r.toBool = false) : r ≠ .ok () := by
  rintro rfl
  cases h

/-! ### Committed transactions -/

/-- The world from here on: its moments are those to come, and this one. -/
def onward (w : World State) : World State := { w with moments := [w.state] }

/-- In a run of opening, writing, closing and finalising, whatever fails and whenever: once a
transaction has been committed, at every later moment the canonical file decrypts to a database with
it, or the registered temporary database has it and the database is locked by the store or the
registration. -/
theorem committed_survives (e : Environment τ) (hc : e.crypto.Correct) (start : World State)
    (hstart : Idle e start.state) (before after : List (Faults × Call τ)) (faults : Faults) (n : ℕ)
    (tx : τ)
    (hcommit : (Call.run (e.under faults) (.commit n tx) (run e before start)).1 = .ok ()) :
    ∀ s ∈ (run e after (onward
      (Call.run (e.under faults) (.commit n tx) (run e before start)).2)).moments, Safe e tx s := by
  have hbefore : Phase e [] (run e before start).state :=
    (run_phase hc before start (.inl ⟨hstart, .inl rfl⟩)).1
  have hmeets : Meets (AllSafe (e.under faults) []) (Phase (e.under faults) [])
      (Call.run (e.under faults) (.commit n tx)) (fun _ => Phase (e.under faults) [tx])
      fun _ => Phase (e.under faults) [] := meets_commit_phase
  have hnow : Phase e [tx] (Call.run (e.under faults) (.commit n tx) (run e before start)).2.state := by
    have hends := (hmeets _ hbefore).2
    rw [hcommit] at hends
    exact hends
  obtain ⟨-, passed, hpassed, hall⟩ := run_phase hc after (onward _) hnow
  intro s hs
  rw [hpassed] at hs
  rcases List.mem_append.mp hs with h | h
  · exact hall s h tx (List.mem_singleton_self tx)
  · rw [List.mem_singleton.mp h]
    exact hnow.allSafe tx (List.mem_singleton_self tx)

/-- At no moment is a transaction lost by a closing whose directory cannot be synced, nor by the
finalising. -/
theorem committed_survives_sync : ¬ ∃ s ∈ (run sampleStores
    [(failing (.syncDir .parent), .closeStore 0), (noFaults, .openEncrypted),
      (noFaults, .finaliseAll)]
    (onward (Call.run (sampleStores.under noFaults) (.commit 0 65)
      (run sampleStores [(noFaults, .openEncrypted)] emptyWorld)).2)).moments,
        ¬ Safe sampleStores 65 s := by
  rintro ⟨s, hs, hlost⟩
  exact hlost (committed_survives sampleStores sampleCrypto_correct emptyWorld idle_emptyWorld
    [(noFaults, .openEncrypted)] _ noFaults 0 65 (eq_ok_of_toBool (by decide +kernel)) s hs)

/-! ### Retrying a failed closing -/

/-- What a database and its log hold. -/
def contents (e : Environment τ) (s : State) (name : Name) : Option (List τ) :=
  e.database.view (s.main name) (s.wal name)

/-- A finalising in which nothing fails puts everything right: the canonical file holds the
database again, the temporary one is gone and the path can be opened. -/
def Retried (e : Environment τ) (database : Option (List τ)) (tmpPath : Name) (w : World State) :
    Prop :=
  (finaliseAll (e.under noFaults) w).1 = .ok () ∧
    (∃ raw plain, (finaliseAll (e.under noFaults) w).2.state.files canonicalFile = some raw ∧
      decryptAny e.crypto raw e.masterKey = .ok plain ∧ e.database.view plain [] = database) ∧
    Gone tmpPath (finaliseAll (e.under noFaults) w).2.state ∧
    (finaliseAll (e.under noFaults) w).2.state.encryptedTemps = none ∧
    (openEncrypted (e.under noFaults) (finaliseAll (e.under noFaults) w).2).1 = .ok ()

/-- A call other than `finaliseAll`. -/
def Call.Ordinary : Call τ → Prop
  | .finaliseAll => False
  | _ => True

theorem not_faulty_noFaults : ¬ Faulty (e.under noFaults) := by
  rintro ⟨o, -, n, fault, hfault⟩
  cases hfault

/-- The faults do not matter for what a step may change. -/
theorem Stable.under {T : FileName → Prop} {F : State → Prop} (h : Stable e T F)
    (faults : Faults) : Stable (e.under faults) T F :=
  fun s t hst => h s t { hst with }

/-- Until it is finalised, a store whose closing failed stays as it is. -/
theorem run_retained {i : ℕ} {K : State → Prop} (hK : Stable e (fun f => f = canonicalLock) K) :
    ∀ (calls : List (Faults × Call τ)) (w : World State), (∀ c ∈ calls, c.2.Ordinary) →
      Retained e i w.state ∧ K w.state →
        Retained e i (run e calls w).state ∧ K (run e calls w).state := by
  intro calls
  induction calls with
  | nil => exact fun _ _ hw => hw
  | cons c rest ih =>
    obtain ⟨faults, call⟩ := c
    intro w hordinary hw
    refine ih _ (fun c hc => hordinary c (List.mem_cons_of_mem _ hc)) ?_
    have hcall : Yields (fun s => Retained e i s ∧ K s) (call.run (e.under faults))
        (fun _ s => Retained e i s ∧ K s) fun _ s => Retained e i s ∧ K s := by
      have hnil {n : ℕ} {f : Store → Prog State CallError Unit} :
          Yields (fun s => Retained e i s ∧ K s) (withStore n f)
            (fun _ s => Retained e i s ∧ K s) fun _ s => Retained e i s ∧ K s :=
        meets_withStore_nil fun s hs => hs.1.stores
      cases call with
      | openEncrypted =>
        have hopen := meets_openEncrypted_retained (i := i) (hK.under faults)
        exact Meets.mapError (hopen.mono (fun _ _ => trivial) (fun _ => id)
          (fun _ _ => False.elim) fun _ _ => id) fun _ _ => id
      | commit n tx => exact hnil
      | closeStore n => exact hnil
      | finaliseAll => exact (hordinary _ List.mem_cons_self).elim
    have hends := (hcall w hw).2
    cases hr : (call.run (e.under faults) w).1 with
    | ok a =>
      rw [hr] at hends
      exact hends
    | error error =>
      rw [hr] at hends
      exact hends

/-- Without faults, finalising works while the decrypted database is there. -/
theorem retried_of_holds (hc : e.crypto.Correct) {i : ℕ} {db : List τ} {w : World State}
    (hretained : Retained e i w.state) (hholds : Holds e (.decrypted i) db w.state) :
    Retried e (some db) (.decrypted i) w := by
  obtain ⟨paths, hbase, hknown, hrecoverable⟩ := hretained
  have hwaiting : Waiting (e.under noFaults) w.state.drawn i paths w.state :=
    ⟨⟨hbase, le_rfl⟩, hrecoverable⟩
  have htemps (s : State) (hs : s = w.state) :
      s.encryptedTemps = some (retainedTemp i paths) := by
    rw [hs]
    exact hbase.1.2.1
  have hno {s : State} : ¬ Left (e.under noFaults) i db s := by
    rintro (⟨-, hfaulty⟩ | ⟨-, -, ⟨n, fault, hfault⟩ | ⟨n, fault, hfault⟩⟩)
    · exact not_faulty_noFaults hfaulty
    · cases hfault
    · cases hfault
  have hfinalise : Yields (fun s => s = w.state) (finaliseAll (e.under noFaults))
      (fun _ s => Idle e s ∧ Sealed e db s ∧ Gone (.decrypted i) s) fun _ _ => False := by
    refine meets_finaliseAll htemps (fun h => by cases h) (fun r hr hactive => ?_) fun r hr _ => ?_
    · obtain rfl := Option.some.inj hr
      cases hactive
    · obtain rfl := Option.some.inj hr
      have hknown' : Known (e.under noFaults) w.state.drawn (.decrypted i) := hknown
      have hone : Meets (Guarded (e.under noFaults) db) _
          (finaliseOne (e.under noFaults) (retainedTemp i paths)) _ _ :=
        meets_finaliseOne hc hknown'
      refine hone.mono (fun _ _ => trivial) ?_ (fun _ _ => id)
        fun _ _ hs => hno hs.2
      rintro s rfl
      exact ⟨hwaiting, hholds⟩
  have hends := (hfinalise w rfl).2
  cases hr : (finaliseAll (e.under noFaults) w).1 with
  | error errors =>
    rw [hr] at hends
    exact hends.elim
  | ok _ =>
    rw [hr] at hends
    obtain ⟨hidle, hsealed, hgone⟩ := hends
    obtain ⟨raw, hraw, ⟨plain, hplain, hview⟩, henvelope⟩ := hsealed
    refine ⟨hr, ⟨raw, plain, hraw, hplain, hview⟩, hgone, hidle.1.2.1, ?_⟩
    have hsealedAs : SealedAs e (some db) (finaliseAll (e.under noFaults) w).2.state := by
      intro db' hdb'
      rw [← Option.some.inj hdb']
      exact ⟨raw, hraw, ⟨plain, hplain, hview⟩, henvelope⟩
    have hopen := ((meets_openEncrypted : Meets (SealedAs (e.under noFaults) (some db)) _ _ _ _)
      (finaliseAll (e.under noFaults) w).2 ⟨hidle, hsealedAs⟩).2
    cases hopened : (openEncrypted (e.under noFaults) (finaliseAll (e.under noFaults) w).2).1 with
    | ok _ => rfl
    | error error =>
      rw [hopened] at hopen
      exact absurd (hopen.2 (by simp)) not_faulty_noFaults

/-- Without the decrypted database, finalising fails for ever. -/
theorem not_retried_of_gone {i : ℕ} {database : Option (List τ)} {name : Name} {w : World State}
    (hretained : Retained e i w.state) (hgone : w.state.files ⟨.decrypted i, .main⟩ = none) :
    ¬ Retried e database name w := by
  rintro ⟨hok, -⟩
  obtain ⟨paths, hbase, -⟩ := hretained
  have hfinalise : Yields (fun s => s = w.state) (finaliseAll (e.under noFaults))
      (fun _ _ => False) fun _ _ => True := by
    have htemps (s : State) (hs : s = w.state) :
        s.encryptedTemps = some (retainedTemp i paths) := by
      rw [hs]
      exact hbase.1.2.1
    refine meets_finaliseAll htemps (fun h => by cases h) (fun _ _ _ _ _ _ => trivial)
      fun r hr _ => ?_
    obtain rfl := Option.some.inj hr
    refine (meets_finaliseOne_gone (e := e.under noFaults) (F := fun _ => True)
      (fun _ _ _ => id) (r := retainedTemp i paths)).mono (fun _ => id) ?_ (fun _ _ => id)
      fun _ _ _ => trivial
    rintro s rfl
    exact ⟨trivial, hgone⟩
  have hends := (hfinalise w rfl).2
  rw [hok] at hends
  exact hends

/-- The one operation that a closing must not fail at is the removal of a sidecar of the decrypted
database: `cleanupPlainTemp` has removed the database itself by then, and finalising does not find
it any more. -/
theorem finaliseAll_retries_iff (e : Environment τ) (hc : e.crypto.Correct) (start : World State)
    (hstart : Idle e start.state) (before between : List (Faults × Call τ)) (faults : Faults)
    (o : Operation) (n : ℕ) (store : Store)
    (hstore : (run e before start).state.stores[n]? = some store)
    (hsingle : ∀ k o', faults k o' ≠ none → o' = o)
    (herror : (closeStore (e.under faults) n store (run e before start)).1 ≠ .ok ())
    (hnext : ∀ c ∈ between, c.2.Ordinary) :
    Retried e (contents e (run e before start).state store.sqlitePath) store.sqlitePath
        (run e between (closeStore (e.under faults) n store (run e before start)).2) ↔
      o ≠ .remove ⟨store.sqlitePath, .wal⟩ ∧ o ≠ .remove ⟨store.sqlitePath, .shm⟩ := by
  obtain ⟨i, db, hopened, rfl, rfl⟩ : ∃ i db, Opened e i db (run e before start).state ∧
      n = 0 ∧ store = openedStore i (some (.decrypted i)) := by
    have hphase : Phase e [] (run e before start).state :=
      (run_phase hc before start (.inl ⟨hstart, .inl rfl⟩)).1
    rcases hphase with ⟨hidle, -⟩ | ⟨i, db, hopened, -⟩ | ⟨i, db, ⟨hretained, -⟩, -⟩
    · rw [hidle.1.2.2] at hstore
      simp at hstore
    · rw [hopened.1.2.2] at hstore
      cases n with
      | zero => exact ⟨i, db, hopened, rfl, (Option.some.inj hstore).symm⟩
      | succ n => simp at hstore
    · rw [hretained.stores] at hstore
      simp at hstore
  have hholds : Holds (e.under faults) (.decrypted i) db (run e before start).state :=
    hopened.2.2.2
  have hends := (meets_closeStore (e := e.under faults) hc hopened.2.2.1
    (run e before start) ⟨⟨⟨hopened.1, hopened.2.1⟩, le_rfl⟩, hholds⟩).2
  have hcontents : contents e (run e before start).state (.decrypted i) = some db :=
    hopened.2.2.2.2
  have hfailed (o' : Operation) (h : Fails (e.under faults) o') : o' = o := by
    obtain ⟨k, fault, hfault⟩ := h
    refine hsingle k o' ?_
    rw [show faults k o' = some fault from hfault]
    simp
  cases hr : (closeStore (e.under faults) 0 (openedStore i (some (.decrypted i)))
      (run e before start)).1 with
  | ok _ => exact absurd hr herror
  | error error =>
    rw [hr] at hends
    obtain ⟨hretained, hleft⟩ := hends
    show Retried e (contents e _ (.decrypted i)) (.decrypted i) _ ↔ _
    rw [hcontents]
    rcases hleft with ⟨hholds, o', hside, hfails⟩ | ⟨-, hgone, hfails⟩
    · obtain rfl := hfailed o' hfails
      have hlater := run_retained (e := e) (stable_holds (by simp [canonicalLock])
        (by simp [canonicalLock])) between _ hnext ⟨hretained, hholds⟩
      refine iff_of_true (retried_of_holds hc hlater.1 hlater.2) ⟨?_, ?_⟩
      · rintro rfl
        exact hside trivial
      · rintro rfl
        exact hside trivial
    · have hlater := run_retained (e := e) (stable_file (by simp [canonicalLock])) between _ hnext
        ⟨hretained, hgone⟩
      refine iff_of_false (not_retried_of_gone hlater.1 hlater.2) fun h => ?_
      rcases hfails with hfails | hfails
      · exact h.1 (hfailed _ hfails).symm
      · exact h.2 (hfailed _ hfails).symm

/-- The closing fails to sync the directory; finalising puts it right. -/
theorem finaliseAll_retries_sync :
    Retried sampleStores
        (contents sampleStores (run sampleStores [(noFaults, .openEncrypted), (noFaults,
          .commit 0 65)] emptyWorld).state (.decrypted 4)) (.decrypted 4)
        (run sampleStores [(noFaults, .openEncrypted)]
          (closeStore (sampleStores.under (failing (.syncDir .parent))) 0
            (openedStore 4 (some (.decrypted 4))) (run sampleStores [(noFaults, .openEncrypted),
              (noFaults, .commit 0 65)] emptyWorld)).2) ↔
      Operation.syncDir .parent ≠ .remove ⟨.decrypted 4, .wal⟩ ∧
        Operation.syncDir .parent ≠ .remove ⟨.decrypted 4, .shm⟩ :=
  finaliseAll_retries_iff sampleStores sampleCrypto_correct emptyWorld idle_emptyWorld
    [(noFaults, .openEncrypted), (noFaults, .commit 0 65)] [(noFaults, .openEncrypted)]
    (failing (.syncDir .parent)) (.syncDir .parent) 0 (openedStore 4 (some (.decrypted 4)))
    (by decide +kernel) (fun _ _ => eq_of_failing) (ne_ok_of_toBool (by decide +kernel))
    (by simp [Call.Ordinary])

/-- The removal of the log fails once: the store cannot be finalised any more. -/
theorem finaliseAll_stuck_after_log :
    (run sampleStores [(noFaults, .openEncrypted), (noFaults, .commit 0 65)]
        emptyWorld).state.stores[0]? = some (openedStore 4 (some (.decrypted 4))) ∧
      (closeStore (sampleStores.under (failing (.remove ⟨.decrypted 4, .wal⟩))) 0
        (openedStore 4 (some (.decrypted 4))) (run sampleStores [(noFaults, .openEncrypted),
          (noFaults, .commit 0 65)] emptyWorld)).1 ≠ .ok () ∧
      ¬ Retried sampleStores
        (contents sampleStores (run sampleStores [(noFaults, .openEncrypted), (noFaults,
          .commit 0 65)] emptyWorld).state (.decrypted 4)) (.decrypted 4)
        (closeStore (sampleStores.under (failing (.remove ⟨.decrypted 4, .wal⟩))) 0
          (openedStore 4 (some (.decrypted 4))) (run sampleStores [(noFaults, .openEncrypted),
            (noFaults, .commit 0 65)] emptyWorld)).2 :=
  ⟨by decide +kernel, ne_ok_of_toBool (by decide +kernel),
    fun h => ne_ok_of_toBool (by decide +kernel) h.1⟩

end EraseMe.EncryptedStore
