import EraseMe.Library.Chrono

/-!
# Programs on a relational store

A program runs statements on a connection.  The engine answers each statement in turn with a
`Reply`: the failure it reports, the time it reads, and the order it gives rows that an `ORDER BY`
leaves tied.  A statement that fails changes nothing, and a transaction whose body or commit fails
is rolled back.  Effects other than the store are recorded in a trace, which no rollback undoes.

`Triple A P m Q` says that from a store and trace with `P`, under replies that all meet `A`, the
program ends with `Q`.  `Faultless` replies never fail; under `AnyReply` every statement may.

A `Table` numbers its rows as `AUTOINCREMENT` does.
-/

namespace Sqlite

open Chrono

/-! ### Connections and programs -/

/-- The answer to one statement. -/
structure Reply where
  error : Option String
  now : DateTime
  rank : ℤ → ℕ

/-- The answer of an engine that never fails, reads the epoch and orders ties by id. -/
def Reply.plain : Reply := ⟨none, epoch, fun _ => 0⟩

/-- A connection: the store, the effects so far and the answers to come. -/
structure Conn (σ τ : Type) where
  db : σ
  trace : List τ
  replies : ℕ → Reply

/-- A program that may stop with an error. -/
def Db (σ τ ε α : Type) : Type := Conn σ τ → Except ε α × Conn σ τ

section Programs

variable {σ τ ε ε' α β : Type}

/-- A value without effect. -/
protected def Db.pure (a : α) : Db σ τ ε α := fun c => (.ok a, c)

/-- One program after another. -/
protected def Db.bind (m : Db σ τ ε α) (f : α → Db σ τ ε β) : Db σ τ ε β := fun c =>
  match m c with
  | (.ok a, c') => f a c'
  | (.error e, c') => (.error e, c')

instance : Monad (Db σ τ ε) where
  pure := Db.pure
  bind := Db.bind

/-- End with an error. -/
def fail (e : ε) : Db σ τ ε α := fun c => (.error e, c)

/-- The same program with its errors converted. -/
def Db.mapError (m : Db σ τ ε α) (f : ε → ε') : Db σ τ ε' α := fun c =>
  match m c with
  | (.ok a, c') => (.ok a, c')
  | (.error e, c') => (.error (f e), c')

/-- Run a program and hand its error on as a value. -/
def attempt (m : Db σ τ ε α) : Db σ τ ε' (Except ε α) := fun c => (.ok (m c).1, (m c).2)

/-- Record an effect, given the ones before it. -/
def perform (f : List τ → α × τ) : Db σ τ ε α := fun c =>
  (.ok (f c.trace).1, { c with trace := c.trace ++ [(f c.trace).2] })

/-- The connection after an answer. -/
def Conn.next (c : Conn σ τ) : Conn σ τ := { c with replies := fun n => c.replies (n + 1) }

/-- One statement. -/
def statement (f : Reply → σ → Except String (α × σ)) : Db σ τ String α := fun c =>
  match (c.replies 0).error with
  | some e => (.error e, c.next)
  | none =>
      match f (c.replies 0) c.db with
      | .ok (a, db) => (.ok a, { c.next with db := db })
      | .error e => (.error e, c.next)

/-- A statement that only reads. -/
def query (f : Reply → σ → α) : Db σ τ String α := statement fun reply db => .ok (f reply db, db)

/-- `BEGIN`, the body, `COMMIT`. -/
def transaction (wrap : String → ε) (body : Db σ τ ε α) : Db σ τ ε α := fun c =>
  match query (fun _ _ => ()) c with
  | (.error e, c₁) => (.error (wrap e), c₁)
  | (.ok _, c₁) =>
      match body c₁ with
      | (.error e, c₂) => (.error e, { c₂ with db := c₁.db })
      | (.ok a, c₂) =>
          match query (fun _ _ => ()) c₂ with
          | (.error e, c₃) => (.error (wrap e), { c₃ with db := c₁.db })
          | (.ok _, c₃) => (.ok a, c₃)

/-- Run a program for each element of a list. -/
def forEach (f : α → Db σ τ ε β) : List α → Db σ τ ε (List β)
  | [] => pure []
  | a :: l => do
      let b ← f a
      let bs ← forEach f l
      pure (b :: bs)

/-! ### One run -/

theorem bind_run_ok {m : Db σ τ ε α} {f : α → Db σ τ ε β} {c c' : Conn σ τ} {a : α}
    (h : m c = (.ok a, c')) : (m >>= f) c = f a c' := by
  change Db.bind m f c = f a c'
  rw [Db.bind, h]

theorem bind_run_error {m : Db σ τ ε α} {f : α → Db σ τ ε β} {c c' : Conn σ τ} {e : ε}
    (h : m c = (.error e, c')) : (m >>= f) c = (.error e, c') := by
  change Db.bind m f c = (.error e, c')
  rw [Db.bind, h]

theorem query_run (f : Reply → σ → α) (c : Conn σ τ) :
    query f c = match (c.replies 0).error with
      | some e => (.error e, c.next)
      | none => (.ok (f (c.replies 0) c.db), c.next) := by
  cases he : (c.replies 0).error with
  | some e => rw [query, statement, he]
  | none => rw [query, statement, he]; rfl

theorem mapError_query_run_ok {f : Reply → σ → α} {g : String → ε} {c : Conn σ τ}
    (h : (c.replies 0).error = none) :
    (query f).mapError g c = (.ok (f (c.replies 0) c.db), c.next) := by
  rw [Db.mapError, query_run, h]

theorem mapError_query_run_error {f : Reply → σ → α} {g : String → ε} {c : Conn σ τ} {e : String}
    (h : (c.replies 0).error = some e) : (query f).mapError g c = (.error (g e), c.next) := by
  rw [Db.mapError, query_run, h]

end Programs

/-! ### Triples -/

section Triples

variable {σ τ ε ε' α β : Type}

/-- The replies that never fail. -/
def Faultless (r : Reply) : Prop := r.error = none

/-- Any reply. -/
def AnyReply (_ : Reply) : Prop := True

/-- Some admitted reply fails. -/
def CanFail (A : Reply → Prop) : Prop := ∃ r e, A r ∧ r.error = some e

theorem not_canFail_faultless : ¬ CanFail Faultless := by
  rintro ⟨r, e, hr, he⟩
  rw [hr] at he
  cases he

/-- From `P`, under replies that meet `A`, the program ends with `Q`. -/
def Triple (A : Reply → Prop) (P : σ → List τ → Prop) (m : Db σ τ ε α)
    (Q : Except ε α → σ → List τ → Prop) : Prop :=
  ∀ c, (∀ n, A (c.replies n)) → P c.db c.trace →
    (∀ n, A ((m c).2.replies n)) ∧ Q (m c).1 (m c).2.db (m c).2.trace

variable {A : Reply → Prop} {P P' : σ → List τ → Prop} {Q Q' : Except ε α → σ → List τ → Prop}

/-- What a triple under any replies says about one run. -/
theorem Triple.run {m : Db σ τ ε α} (h : Triple AnyReply P m Q) (c : Conn σ τ)
    (hP : P c.db c.trace) : Q (m c).1 (m c).2.db (m c).2.trace :=
  (h c (fun _ => trivial) hP).2

theorem Triple.pure {a : α} (h : ∀ db tr, P db tr → Q (.ok a) db tr) :
    Triple A P (Pure.pure a) Q := fun _ hA hP => ⟨hA, h _ _ hP⟩

theorem Triple.fail {e : ε} (h : ∀ db tr, P db tr → Q (.error e) db tr) :
    Triple A P (fail e) Q := fun _ hA hP => ⟨hA, h _ _ hP⟩

theorem Triple.conseq {m : Db σ τ ε α} (h : Triple A P m Q) (hP : ∀ db tr, P' db tr → P db tr)
    (hQ : ∀ r db tr, Q r db tr → Q' r db tr) : Triple A P' m Q' := fun c hA hc =>
  ⟨(h c hA (hP _ _ hc)).1, hQ _ _ _ (h c hA (hP _ _ hc)).2⟩

/-- A triple may fix the store and the trace it starts from. -/
theorem Triple.ghost {m : Db σ τ ε α}
    (h : ∀ db₀ tr₀, P db₀ tr₀ → Triple A (fun db tr => db = db₀ ∧ tr = tr₀) m Q) :
    Triple A P m Q := fun c hA hP => h c.db c.trace hP c hA ⟨rfl, rfl⟩

theorem Triple.bind {m : Db σ τ ε α} {f : α → Db σ τ ε β} {Q : Except ε β → σ → List τ → Prop}
    {R : Except ε α → σ → List τ → Prop} (hm : Triple A P m R)
    (hf : ∀ a, Triple A (R (.ok a)) (f a) Q)
    (he : ∀ e db tr, R (.error e) db tr → Q (.error e) db tr) : Triple A P (m >>= f) Q := by
  intro c hA hP
  obtain ⟨hA', hR⟩ := hm c hA hP
  change (∀ n, A ((Db.bind m f c).2.replies n)) ∧
    Q (Db.bind m f c).1 (Db.bind m f c).2.db (Db.bind m f c).2.trace
  unfold Db.bind
  generalize m c = r at hA' hR
  obtain ⟨r, c'⟩ := r
  cases r with
  | ok a => exact hf a c' hA' hR
  | error e => exact ⟨hA', he e _ _ hR⟩

theorem Triple.mapError {m : Db σ τ ε α} {f : ε → ε'} {Q : Except ε' α → σ → List τ → Prop}
    (h : Triple A P m fun r db tr => Q (r.mapError f) db tr) : Triple A P (m.mapError f) Q := by
  intro c hA hP
  obtain ⟨hA', hQ⟩ := h c hA hP
  unfold Db.mapError
  generalize m c = r at hA' hQ
  obtain ⟨r, c'⟩ := r
  cases r with
  | ok a => exact ⟨hA', hQ⟩
  | error e => exact ⟨hA', hQ⟩

theorem Triple.attempt {m : Db σ τ ε α} {Q : Except ε' (Except ε α) → σ → List τ → Prop}
    (h : Triple A P m fun r db tr => Q (.ok r) db tr) : Triple A P (attempt m) Q :=
  fun c hA hP => h c hA hP

theorem Triple.perform {f : List τ → α × τ}
    (h : ∀ db tr, P db tr → Q (.ok (f tr).1) db (tr ++ [(f tr).2])) :
    Triple A P (perform f) Q := fun _ hA hP => ⟨hA, h _ _ hP⟩

theorem Triple.statement {f : Reply → σ → Except String (α × σ)}
    {Q : Except String α → σ → List τ → Prop}
    (hok : ∀ r db tr, A r → P db tr → r.error = none → ∀ a db', f r db = .ok (a, db') →
      Q (.ok a) db' tr)
    (herr : ∀ r db tr e, A r → P db tr → (r.error = some e ∨ r.error = none ∧ f r db = .error e) →
      Q (.error e) db tr) :
    Triple A P (statement f) Q := by
  intro c hA hP
  cases he : (c.replies 0).error with
  | some e =>
    have hrun : Sqlite.statement f c = (.error e, c.next) := by rw [Sqlite.statement, he]
    rw [hrun]
    exact ⟨fun n => hA (n + 1), herr _ _ _ e (hA 0) hP (Or.inl he)⟩
  | none =>
    cases hf : f (c.replies 0) c.db with
    | ok r =>
      have hrun : Sqlite.statement f c = (.ok r.1, { c.next with db := r.2 }) := by
        rw [Sqlite.statement, he, hf]
      rw [hrun]
      exact ⟨fun n => hA (n + 1), hok _ _ _ (hA 0) hP he r.1 r.2 hf⟩
    | error e =>
      have hrun : Sqlite.statement f c = (.error e, c.next) := by rw [Sqlite.statement, he, hf]
      rw [hrun]
      exact ⟨fun n => hA (n + 1), herr _ _ _ e (hA 0) hP (Or.inr ⟨he, hf⟩)⟩

theorem Triple.query {f : Reply → σ → α} {Q : Except String α → σ → List τ → Prop}
    (hok : ∀ r db tr, A r → P db tr → Q (.ok (f r db)) db tr)
    (herr : ∀ r db tr e, A r → P db tr → r.error = some e → Q (.error e) db tr) :
    Triple A P (query f) Q := by
  refine Triple.statement (fun r db tr hr hP _ a db' h => ?_) (fun r db tr e hr hP h => ?_)
  · cases h
    exact hok r db tr hr hP
  · rcases h with h | ⟨-, h⟩
    · exact herr r db tr e hr hP h
    · cases h

/-- A transaction: the body from a known store; when the body or the commit fails, the store is
the known one. -/
theorem Triple.transaction {wrap : String → ε} {body : Db σ τ ε α}
    (hbody : ∀ db₀ tr₀, P db₀ tr₀ →
      Triple A (fun db tr => db = db₀ ∧ tr = tr₀) body fun r db tr => match r with
        | .ok a => Q (.ok a) db tr ∧ ∀ r e, A r → r.error = some e → Q (.error (wrap e)) db₀ tr
        | .error e => Q (.error e) db₀ tr)
    (hbegin : ∀ r e db tr, A r → r.error = some e → P db tr → Q (.error (wrap e)) db tr) :
    Triple A P (transaction wrap body) Q := by
  intro c hA hP
  unfold Sqlite.transaction
  rw [query_run]
  cases he : (c.replies 0).error with
  | some e => exact ⟨fun n => hA (n + 1), hbegin _ e _ _ (hA 0) he hP⟩
  | none =>
    obtain ⟨hA', hR⟩ := hbody c.db c.trace hP c.next (fun n => hA (n + 1)) ⟨rfl, rfl⟩
    simp only
    generalize body c.next = r at hA' hR
    obtain ⟨r, c'⟩ := r
    cases r with
    | error e => exact ⟨hA', hR⟩
    | ok a =>
      simp only [query_run] at hR ⊢
      cases he' : (c'.replies 0).error with
      | some e => exact ⟨fun n => hA' (n + 1), hR.2 _ e (hA' 0) he'⟩
      | none => exact ⟨fun n => hA' (n + 1), hR.1⟩

/-- A loop, by an invariant that may name the elements done and what they returned. -/
theorem Triple.forEach {f : α → Db σ τ ε β} (I : List α → List β → σ → List τ → Prop)
    (E : ε → σ → List τ → Prop) {l : List α}
    (hstep : ∀ pre a post bs, l = pre ++ a :: post →
      Triple A (I pre bs) (f a) fun r db tr => match r with
        | .ok b => I (pre ++ [a]) (bs ++ [b]) db tr
        | .error e => E e db tr) :
    Triple A (I [] []) (forEach f l) fun r db tr => match r with
      | .ok bs => I l bs db tr
      | .error e => E e db tr := by
  suffices h : ∀ post pre bs₀, l = pre ++ post →
      Triple A (I pre bs₀) (Sqlite.forEach f post) fun r db tr => match r with
        | .ok bs => I l (bs₀ ++ bs) db tr
        | .error e => E e db tr by
    exact (h l [] [] rfl)
  intro post
  induction post with
  | nil =>
    intro pre bs₀ hl
    refine Triple.pure fun db tr hI => ?_
    rw [List.append_nil] at hl
    change I l (bs₀ ++ []) db tr
    rw [hl, List.append_nil]
    exact hI
  | cons a post ih =>
    intro pre bs₀ hl
    refine Triple.bind (hstep pre a post bs₀ hl) (fun b => ?_) (fun e db tr h => h)
    refine Triple.bind (ih (pre ++ [a]) (bs₀ ++ [b]) (by simp [hl])) (fun bs => ?_)
      (fun e db tr h => h)
    exact Triple.pure fun db tr h => by simpa using h

end Triples

/-! ### Tables -/

/-- Rows by their id, in ascending order, none above the last id given out. -/
structure Table (ρ : Type) where
  rows : List (ℤ × ρ)
  seq : ℤ
  seq_nonneg : 0 ≤ seq
  ascending : rows.Pairwise fun a b => a.1 < b.1
  le_seq : ∀ r ∈ rows, r.1 ≤ seq

namespace Table

variable {ρ : Type}

/-- No rows. -/
def empty : Table ρ := ⟨[], 0, le_refl 0, List.Pairwise.nil, by simp⟩

/-- The row with an id. -/
def find (t : Table ρ) (id : ℤ) : Option ρ := t.rows.lookup id

/-- Append a row under the next id. -/
def insert (t : Table ρ) (r : ρ) : Table ρ where
  rows := t.rows ++ [(t.seq + 1, r)]
  seq := t.seq + 1
  seq_nonneg := by
    have := t.seq_nonneg
    omega
  ascending := by
    refine List.pairwise_append.2 ⟨t.ascending, List.pairwise_singleton _ _, fun a ha b hb => ?_⟩
    have := t.le_seq a ha
    rw [List.mem_singleton.1 hb]
    exact Int.lt_add_one_of_le this
  le_seq := by
    intro a ha
    rcases List.mem_append.1 ha with ha | ha
    · exact (t.le_seq a ha).trans (by omega)
    · rw [List.mem_singleton.1 ha]

@[simp] theorem insert_rows (t : Table ρ) (r : ρ) :
    (t.insert r).rows = t.rows ++ [(t.seq + 1, r)] := rfl

@[simp] theorem insert_seq (t : Table ρ) (r : ρ) : (t.insert r).seq = t.seq + 1 := rfl

theorem find_eq_none_of_lt {t : Table ρ} {id : ℤ} (h : t.seq < id) : t.find id = none := by
  rw [find, List.lookup_eq_none_iff]
  intro a ha
  have := t.le_seq a ha
  simp only [bne_iff_ne, ne_eq]
  omega

theorem find_insert (t : Table ρ) (r : ρ) (id : ℤ) :
    (t.insert r).find id = if id = t.seq + 1 then some r else t.find id := by
  have hnone : t.find (t.seq + 1) = none := find_eq_none_of_lt (by omega)
  rw [find, insert_rows, List.lookup_append]
  by_cases h : id = t.seq + 1
  · rw [if_pos h, h, ← find, hnone]
    simp
  · rw [if_neg h, ← find]
    simp [List.lookup_cons, beq_eq_false_iff_ne.2 h]

theorem le_seq_of_find {t : Table ρ} {id : ℤ} (h : (t.find id).isSome) : id ≤ t.seq := by
  by_contra hlt
  rw [find_eq_none_of_lt (not_le.1 hlt)] at h
  cases h

/-- Change the row with an id. -/
def update (t : Table ρ) (id : ℤ) (f : ρ → ρ) : Table ρ where
  rows := t.rows.map fun r => if r.1 = id then (r.1, f r.2) else r
  seq := t.seq
  seq_nonneg := t.seq_nonneg
  ascending := by
    refine List.pairwise_map.2 (t.ascending.imp fun {a b} h => ?_)
    split_ifs <;> exact h
  le_seq := by
    intro a ha
    obtain ⟨r, hr, rfl⟩ := List.mem_map.1 ha
    have := t.le_seq r hr
    split_ifs <;> exact this

@[simp] theorem update_seq (t : Table ρ) (id : ℤ) (f : ρ → ρ) : (t.update id f).seq = t.seq := rfl

theorem mem_update {t : Table ρ} {id : ℤ} {f : ρ → ρ} {r : ℤ × ρ} :
    r ∈ (t.update id f).rows ↔
      ∃ r' ∈ t.rows, r = if r'.1 = id then (r'.1, f r'.2) else r' := by
  simp only [update, List.mem_map, eq_comm]

end Table

/-- A row of a table is determined by its id. -/
theorem row_eq_of_id {ρ : Type} (t : Table ρ) {a b : ℤ × ρ} (ha : a ∈ t.rows) (hb : b ∈ t.rows)
    (h : a.1 = b.1) : a = b := by
  obtain ⟨i, hi, rfl⟩ := List.getElem_of_mem ha
  obtain ⟨j, hj, rfl⟩ := List.getElem_of_mem hb
  have hasc := List.pairwise_iff_getElem.1 t.ascending
  rcases Nat.lt_trichotomy i j with hij | rfl | hij
  · exact absurd h (hasc i j hi hj hij).ne
  · rfl
  · exact absurd h.symm (hasc j i hj hi hij).ne

namespace Table

variable {ρ : Type}

theorem find_eq_some_iff {t : Table ρ} {id : ℤ} {r : ρ} :
    t.find id = some r ↔ (id, r) ∈ t.rows := by
  have hmem : ∀ r, t.find id = some r → (id, r) ∈ t.rows := by
    intro r h
    obtain ⟨l₁, l₂, hrows, -⟩ := List.lookup_eq_some_iff.1 h
    rw [hrows]
    exact List.mem_append_right _ List.mem_cons_self
  refine ⟨hmem r, fun h => ?_⟩
  cases hfind : t.find id with
  | none => simpa using List.lookup_eq_none_iff.1 hfind _ h
  | some r' => rw [(Prod.mk.inj (row_eq_of_id t (hmem r' hfind) h rfl)).2]

theorem find_update (t : Table ρ) (id id' : ℤ) (f : ρ → ρ) :
    (t.update id f).find id' = if id' = id then (t.find id).map f else t.find id' := by
  ext r
  rw [find_eq_some_iff, mem_update]
  constructor
  · rintro ⟨⟨k, v⟩, hrow, h⟩
    by_cases hk : k = id
    · rw [if_pos hk] at h
      obtain ⟨rfl, rfl⟩ := Prod.mk.inj h
      rw [if_pos hk, ← hk, find_eq_some_iff.2 hrow]
      rfl
    · rw [if_neg hk] at h
      obtain ⟨rfl, rfl⟩ := Prod.mk.inj h
      rw [if_neg hk]
      exact find_eq_some_iff.2 hrow
  · intro h
    by_cases hid : id' = id
    · rw [if_pos hid] at h
      obtain ⟨v, hv, rfl⟩ := Option.map_eq_some_iff.1 h
      exact ⟨(id, v), find_eq_some_iff.1 hv, by rw [if_pos rfl, hid]⟩
    · rw [if_neg hid] at h
      exact ⟨(id', r), find_eq_some_iff.1 h, by rw [if_neg hid]⟩

end Table

end Sqlite
