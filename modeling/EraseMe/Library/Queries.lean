import EraseMe.Library.Sqlite

/-!
# Programs that only read

What a program that only reads may return depends on the store and on the replies.  `Reads` gives
the values exactly: every run returns one of them or fails with an error of a kind, and each is
returned in some run, whatever replies are left.  A program that continues with them then fails in
some way exactly if it does so from one of the values (`Reads.neverFails_bind`).
-/

namespace Sqlite

variable {σ τ ε ε' α β : Type}

/-- The results of a program that only reads are the `S`, its errors are among the `E`. -/
structure Reads (E : ε → Prop) (m : Db σ τ ε α) (db : σ) (S : α → Prop) : Prop where
  sound : ∀ c, c.db = db →
    (∃ a c', m c = (.ok a, c') ∧ c'.db = db ∧ S a) ∨ ∃ e c', m c = (.error e, c') ∧ E e
  complete : ∀ a, S a → ∀ c', c'.db = db → ∃ c, c.db = db ∧ m c = (.ok a, c')

variable {E F : ε → Prop} {E' : ε' → Prop} {m : Db σ τ ε α} {k : α → Db σ τ ε β} {db : σ}
  {S : α → Prop} {T : β → Prop}

theorem Reads.pure (a : α) : Reads E (Pure.pure a : Db σ τ ε α) db (· = a) where
  sound c hc := Or.inl ⟨a, c, rfl, hc, rfl⟩
  complete _ ha c' hc' := ⟨c', hc', by rw [ha]; rfl⟩

theorem Reads.query (f : Reply → σ → α) :
    Reads (fun _ => True) (Sqlite.query f : Db σ τ String α) db
      fun a => ∃ r, r.error = none ∧ a = f r db where
  sound c hc := by
    cases he : (c.replies 0).error with
    | some e =>
      refine Or.inr ⟨e, c.next, ?_, trivial⟩
      rw [query_run, he]
    | none =>
      refine Or.inl ⟨_, c.next, ?_, hc, c.replies 0, he, rfl⟩
      rw [query_run, he, hc]
  complete := by
    rintro a ⟨r, hr, rfl⟩ c' rfl
    refine ⟨⟨c'.db, c'.trace, fun n => if n = 0 then r else c'.replies (n - 1)⟩, rfl, ?_⟩
    rw [query_run]
    simp [hr, Conn.next]

theorem Reads.bind (hm : Reads E m db S) {T : α → β → Prop} (hk : ∀ a, Reads E (k a) db (T a)) :
    Reads E (m >>= k) db fun b => ∃ a, S a ∧ T a b where
  sound c hc := by
    rcases hm.sound c hc with ⟨a, c', hrun, hc', ha⟩ | ⟨e, c', hrun, he⟩
    · rw [bind_run_ok hrun]
      rcases (hk a).sound c' hc' with ⟨b, c'', hrun', hc'', hb⟩ | herror
      · exact Or.inl ⟨b, c'', hrun', hc'', a, ha, hb⟩
      · exact Or.inr herror
    · exact Or.inr ⟨e, c', bind_run_error hrun, he⟩
  complete := by
    rintro b ⟨a, ha, hb⟩ c' hc'
    obtain ⟨c₁, hc₁, hrun'⟩ := (hk a).complete b hb c' hc'
    obtain ⟨c, hc, hrun⟩ := hm.complete a ha c₁ hc₁
    exact ⟨c, hc, (bind_run_ok hrun).trans hrun'⟩

theorem Reads.mapError (hm : Reads E m db S) {g : ε → ε'} (hg : ∀ e, E e → E' (g e)) :
    Reads E' (m.mapError g) db S where
  sound c hc := by
    rcases hm.sound c hc with ⟨a, c', hrun, hc', ha⟩ | ⟨e, c', hrun, he⟩
    · refine Or.inl ⟨a, c', ?_, hc', ha⟩
      rw [Db.mapError, hrun]
    · refine Or.inr ⟨g e, c', ?_, hg e he⟩
      rw [Db.mapError, hrun]
  complete a ha c' hc' := by
    obtain ⟨c, hc, hrun⟩ := hm.complete a ha c' hc'
    refine ⟨c, hc, ?_⟩
    rw [Db.mapError, hrun]

theorem Reads.congr (hm : Reads E m db S) {S' : α → Prop} (h : ∀ a, S a ↔ S' a) :
    Reads E m db S' := by
  rwa [show S' = S from funext fun a => (propext (h a)).symm]

/-- No run from the store fails with an error of the kind. -/
def NeverFails (F : ε → Prop) (m : Db σ τ ε α) (db : σ) : Prop :=
  ∀ c, c.db = db → ∀ e c', m c = (.error e, c') → ¬ F e

theorem neverFails_pure (a : α) : NeverFails F (Pure.pure a : Db σ τ ε α) db := by
  intro c _ e c' hrun
  cases hrun

theorem neverFails_fail {e : ε} (τ : Type) (db : σ) (α : Type) :
    NeverFails F (fail e : Db σ τ ε α) db ↔ ¬ F e := by
  constructor
  · exact fun h => h ⟨db, [], fun _ => .plain⟩ rfl e _ rfl
  · intro he c _ e' c' hrun
    cases hrun
    exact he

/-- What follows a reading program fails if it does so from one of the values read. -/
theorem Reads.neverFails_bind (hm : Reads (fun e => ¬ F e) m db S) :
    NeverFails F (m >>= k) db ↔ ∀ a, S a → NeverFails F (k a) db := by
  constructor
  · intro h a ha c' hc' e c'' hrun'
    obtain ⟨c, hc, hrun⟩ := hm.complete a ha c' hc'
    exact h c hc e c'' ((bind_run_ok hrun).trans hrun')
  · intro h c hc e c'' hrun
    rcases hm.sound c hc with ⟨a, c', hread, hc', ha⟩ | ⟨e', c', hread, he'⟩
    · rw [bind_run_ok hread] at hrun
      exact h a ha c' hc' e c'' hrun
    · rw [bind_run_error hread] at hrun
      cases hrun
      exact he'

end Sqlite
