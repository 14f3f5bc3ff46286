import EraseMe.Library.Statements

/-!
# Programs on a part of the store

A program that only sees a part of the store runs on the whole store (`Db.onPart`): it leaves the
other parts alone, takes the same replies and keeps its specification.
-/

namespace Sqlite

/-- How a part is read and replaced. -/
structure Part (σ ρ : Type) where
  get : σ → ρ
  set : σ → ρ → σ
  get_set : ∀ s r, get (set s r) = r
  set_get : ∀ s, set s (get s) = s

variable {σ ρ τ ε α : Type} (part : Part σ ρ)

/-- The connection as the program on the part sees it. -/
def Conn.onPart (c : Conn σ τ) : Conn ρ τ := ⟨part.get c.db, c.trace, c.replies⟩

/-- A program on a part. -/
def Db.onPart (m : Db ρ τ ε α) : Db σ τ ε α := fun c =>
  ((m (c.onPart part)).1,
    ⟨part.set c.db (m (c.onPart part)).2.db, (m (c.onPart part)).2.trace,
      (m (c.onPart part)).2.replies⟩)

variable {m : Db ρ τ ε α}

theorem Db.onPart_run_ok {part : Part σ ρ} {c : Conn σ τ} {a : α} {c' : Conn ρ τ}
    (h : m (c.onPart part) = (.ok a, c')) :
    m.onPart part c = (.ok a, ⟨part.set c.db c'.db, c'.trace, c'.replies⟩) := by
  rw [Db.onPart, h]

/-- A specification from a known part holds from a known store. -/
theorem Triple.onPart {A : Reply → Prop} {s : σ} {tr₀ : List τ}
    {Q : Except ε α → ρ → List τ → Prop}
    (h : Triple A (fun r tr => r = part.get s ∧ tr = tr₀) m Q) :
    Triple A (fun db tr => db = s ∧ tr = tr₀) (m.onPart part) fun res db tr =>
      ∃ r, db = part.set s r ∧ Q res r tr := by
  rintro c hA ⟨rfl, rfl⟩
  obtain ⟨hA', hQ⟩ := h (c.onPart part) hA ⟨rfl, rfl⟩
  exact ⟨hA', _, rfl, hQ⟩

theorem Db.Takes.onPart {n : ℕ} (h : m.Takes n) : (m.onPart part).Takes n := by
  intro c a c' hrun
  obtain ⟨hresult, rfl⟩ := Prod.mk.inj hrun
  exact h (c.onPart part) a _ (Prod.ext hresult rfl)

theorem Db.Succeeds.onPart {P : ρ → Prop} {Q : α → ρ → Prop} {n : ℕ} (h : m.Succeeds P n Q) :
    (m.onPart part).Succeeds (fun s => P (part.get s)) n fun a s => Q a (part.get s) := by
  intro c hP hfaults
  obtain ⟨a, c', hrun, hQ, hshift⟩ := h (c.onPart part) hP hfaults
  refine ⟨a, _, Db.onPart_run_ok hrun, ?_, hshift⟩
  show Q a (part.get (part.set c.db c'.db))
  rw [part.get_set]
  exact hQ

end Sqlite
