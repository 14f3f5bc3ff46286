import EraseMe.Library.Sqlite

/-!
# The statements of a run

Which statement of a run is the first to fail, and how many statements a program takes when none
does.  A program that succeeds met no failure among the statements it took (`Db.Takes`), and one
that meets none succeeds (`Db.Succeeds`).
-/

namespace Sqlite

section Statements

variable {σ τ ε ε' α β : Type}

/-! ### One run -/

theorem statement_run_ok {f : Reply → σ → Except String (α × σ)} {c : Conn σ τ} {a : α} {db : σ}
    (h : (c.replies 0).error = none) (hf : f (c.replies 0) c.db = .ok (a, db)) :
    statement f c = (.ok a, { c.next with db := db }) := by
  rw [statement, h, hf]

theorem statement_run_error {f : Reply → σ → Except String (α × σ)} {c : Conn σ τ} {e : String}
    (h : (c.replies 0).error = some e) : statement f c = (.error e, c.next) := by
  rw [statement, h]

theorem mapError_run_ok {m : Db σ τ ε α} {g : ε → ε'} {c c' : Conn σ τ} {a : α}
    (h : m c = (.ok a, c')) : m.mapError g c = (.ok a, c') := by
  rw [Db.mapError, h]

theorem mapError_run_error {m : Db σ τ ε α} {g : ε → ε'} {c c' : Conn σ τ} {e : ε}
    (h : m c = (.error e, c')) : m.mapError g c = (.error (g e), c') := by
  rw [Db.mapError, h]

/-- What is returned at the end changes nothing. -/
theorem bind_pure_run (m : Db σ τ ε α) (f : α → β) (c : Conn σ τ) :
    ((m >>= fun a => (Pure.pure (f a) : Db σ τ ε β)) c).2 = (m c).2 := by
  cases hrun : m c with
  | mk r c' =>
    cases r with
    | ok a =>
      rw [bind_run_ok hrun]
      rfl
    | error e => rw [bind_run_error hrun]

/-! ### The first failure -/

/-- The reply is the first one that is a failure. -/
def FirstFault (replies : ℕ → Reply) (k : ℕ) : Prop :=
  (replies k).error ≠ none ∧ ∀ i < k, (replies i).error = none

theorem FirstFault.eq {replies : ℕ → Reply} {j k : ℕ} (hj : FirstFault replies j)
    (hk : FirstFault replies k) : j = k := by
  rcases Nat.lt_trichotomy j k with h | h | h
  · exact absurd (hk.2 j h) hj.1
  · exact h
  · exact absurd (hj.2 k h) hk.1

theorem firstFault_zero {replies : ℕ → Reply} (h : (replies 0).error ≠ none) :
    FirstFault replies 0 :=
  ⟨h, fun i hi => absurd hi (Nat.not_lt_zero i)⟩

/-- Among replies that do not all succeed there is a first failure. -/
theorem exists_firstFault {replies : ℕ → Reply} {n : ℕ}
    (h : ¬ ∀ i < n, (replies i).error = none) : ∃ k < n, FirstFault replies k := by
  push Not at h
  obtain ⟨i, hi, hfault⟩ := h
  induction i using Nat.strong_induction_on with
  | _ i ih =>
    by_cases hbefore : ∀ j < i, (replies j).error = none
    · exact ⟨i, hi, hfault, hbefore⟩
    · push Not at hbefore
      obtain ⟨j, hj, hfault'⟩ := hbefore
      exact ih j hj (hj.trans hi) hfault'

/-- Replies that succeed only move the first failure. -/
theorem firstFault_add {replies : ℕ → Reply} {n k : ℕ} (h : ∀ i < n, (replies i).error = none) :
    FirstFault (fun i => replies (i + n)) k ↔ FirstFault replies (k + n) := by
  constructor
  · rintro ⟨hk, hbefore⟩
    refine ⟨hk, fun i hi => ?_⟩
    by_cases hin : i < n
    · exact h i hin
    · have hshift : (replies (i - n + n)).error = none := hbefore (i - n) (by omega)
      rwa [Nat.sub_add_cancel (not_lt.1 hin)] at hshift
  · rintro ⟨hk, hbefore⟩
    exact ⟨hk, fun i hi => hbefore (i + n) (by omega)⟩

/-! ### How many statements a success takes -/

/-- The replies after `n` statements and `k` more. -/
theorem replies_add (replies : ℕ → Reply) (n k : ℕ) :
    (fun i => replies (i + k + n)) = fun i => replies (i + (n + k)) := by
  funext i
  rw [Nat.add_assoc, Nat.add_comm k n]

/-- A success takes `n` replies, and none of them is a failure. -/
def Db.Takes (m : Db σ τ ε α) (n : ℕ) : Prop :=
  ∀ c a c', m c = (.ok a, c') →
    (∀ i < n, (c.replies i).error = none) ∧ c'.replies = fun i => c.replies (i + n)

theorem Db.takes_pure (a : α) : Db.Takes (Pure.pure a : Db σ τ ε α) 0 := by
  intro c b c' h
  cases h
  exact ⟨fun i hi => absurd hi (Nat.not_lt_zero i), rfl⟩

theorem Db.takes_statement (f : Reply → σ → Except String (α × σ)) :
    Db.Takes (statement f : Db σ τ String α) 1 := by
  intro c a c' h
  rw [statement] at h
  cases he : (c.replies 0).error with
  | some e =>
    rw [he] at h
    cases h
  | none =>
    rw [he] at h
    refine ⟨fun i hi => by rw [Nat.lt_one_iff.1 hi, he], ?_⟩
    cases hf : f (c.replies 0) c.db with
    | error e =>
      rw [hf] at h
      cases h
    | ok r =>
      rw [hf] at h
      cases h
      rfl

theorem Db.Takes.bind {m : Db σ τ ε α} {f : α → Db σ τ ε β} {n k : ℕ} (hm : m.Takes n)
    (hf : ∀ a, (f a).Takes k) : Db.Takes (m >>= f) (n + k) := by
  intro c b c' h
  change Db.bind m f c = (.ok b, c') at h
  rw [Db.bind] at h
  cases hrun : m c with
  | mk r c₁ =>
    rw [hrun] at h
    cases r with
    | error e => cases h
    | ok a =>
      -- the second program sees the replies from the `n`-th on
      obtain ⟨hfirst, hshift⟩ := hm c a c₁ hrun
      obtain ⟨hrest, hshift'⟩ := hf a c₁ b c' h
      rw [hshift] at hrest hshift'
      refine ⟨fun i hi => ?_, ?_⟩
      · by_cases hin : i < n
        · exact hfirst i hin
        · have hlast : (c.replies (i - n + n)).error = none := hrest (i - n) (by omega)
          rwa [Nat.sub_add_cancel (not_lt.1 hin)] at hlast
      · rw [hshift', replies_add c.replies n k]

theorem Db.Takes.mapError {m : Db σ τ ε α} {n : ℕ} (h : m.Takes n) (g : ε → ε') :
    (m.mapError g).Takes n := by
  intro c a c' hrun
  rw [Db.mapError] at hrun
  cases hm : m c with
  | mk r c₁ =>
    rw [hm] at hrun
    cases r with
    | error e => cases hrun
    | ok b =>
      cases hrun
      exact h c a c' hm

/-- A transaction takes two statements more than its body. -/
theorem Db.Takes.transaction {wrap : String → ε} {body : Db σ τ ε α} {n : ℕ} (h : body.Takes n) :
    (transaction wrap body).Takes (1 + (n + 1)) := by
  have hquery : Db.Takes ((query fun _ _ => () : Db σ τ String Unit).mapError wrap) 1 :=
    (Db.takes_statement _).mapError wrap
  have hall : Db.Takes ((query fun _ _ => ()).mapError wrap >>= fun _ => body >>= fun a =>
      (query fun _ _ => ()).mapError wrap >>= fun _ => Pure.pure a) (1 + (n + 1)) :=
    hquery.bind fun _ => h.bind fun a => hquery.bind fun _ => Db.takes_pure a
  intro c a c' hrun
  refine hall c a c' ?_
  -- a transaction that commits is its statements one after the other
  rw [Sqlite.transaction] at hrun
  cases hbegin : query (fun _ _ => ()) c with
  | mk r c₁ =>
    rw [hbegin] at hrun
    cases r with
    | error e => cases hrun
    | ok u =>
      rw [bind_run_ok (mapError_run_ok hbegin)]
      cases hbody : body c₁ with
      | mk r c₂ =>
        simp only [hbody] at hrun
        cases r with
        | error e => cases hrun
        | ok b =>
          rw [bind_run_ok hbody]
          cases hcommit : query (fun _ _ => ()) c₂ with
          | mk r c₃ =>
            simp only [hcommit] at hrun
            cases r with
            | error e => cases hrun
            | ok v =>
              cases hrun
              rw [bind_run_ok (mapError_run_ok hcommit)]
              rfl

/-! ### Success when no statement fails -/

/-- From a store with `P`, when none of the next `n` replies is a failure, the program succeeds, and
`Q` holds of the result and the store it leaves. -/
def Db.Succeeds (P : σ → Prop) (m : Db σ τ ε α) (n : ℕ) (Q : α → σ → Prop) : Prop :=
  ∀ c, P c.db → (∀ i < n, (c.replies i).error = none) →
    ∃ a c', m c = (.ok a, c') ∧ Q a c'.db ∧ c'.replies = fun i => c.replies (i + n)

variable {P : σ → Prop} {Q : α → σ → Prop}

theorem Db.succeeds_pure (a : α) (h : ∀ db, P db → Q a db) :
    Db.Succeeds P (Pure.pure a : Db σ τ ε α) 0 Q :=
  fun c hP _ => ⟨a, c, rfl, h c.db hP, rfl⟩

theorem Db.succeeds_statement {f : Reply → σ → Except String (α × σ)}
    (h : ∀ r db, P db → ∃ a db', f r db = .ok (a, db') ∧ Q a db') :
    Db.Succeeds P (statement f : Db σ τ String α) 1 Q := by
  intro c hP hfaults
  obtain ⟨a, db', hf, hQ⟩ := h (c.replies 0) c.db hP
  exact ⟨a, _, statement_run_ok (hfaults 0 Nat.zero_lt_one) hf, hQ, rfl⟩

theorem Db.Succeeds.bind {m : Db σ τ ε α} {f : α → Db σ τ ε β} {Q : β → σ → Prop}
    {R : α → σ → Prop} {n k : ℕ} (hm : m.Succeeds P n R) (hf : ∀ a, (f a).Succeeds (R a) k Q) :
    Db.Succeeds P (m >>= f) (n + k) Q := by
  intro c hP hfaults
  obtain ⟨a, c₁, hrun, hR, hshift⟩ := hm c hP fun i hi => hfaults i (by omega)
  have hrest : ∀ i < k, (c₁.replies i).error = none := fun i hi => by
    rw [hshift]
    exact hfaults (i + n) (by omega)
  obtain ⟨b, c₂, hrun', hQ, hshift'⟩ := hf a c₁ hR hrest
  refine ⟨b, c₂, (bind_run_ok hrun).trans hrun', hQ, ?_⟩
  rw [hshift', hshift, replies_add c.replies n k]

theorem Db.Succeeds.mapError {m : Db σ τ ε α} {n : ℕ} (h : m.Succeeds P n Q) (g : ε → ε') :
    (m.mapError g).Succeeds P n Q := by
  intro c hP hfaults
  obtain ⟨a, c', hrun, hQ, hshift⟩ := h c hP hfaults
  exact ⟨a, c', mapError_run_ok hrun, hQ, hshift⟩

theorem Db.Succeeds.transaction {wrap : String → ε} {body : Db σ τ ε α} {n : ℕ}
    (h : body.Succeeds P n Q) : (transaction wrap body).Succeeds P (1 + (n + 1)) Q := by
  intro c hP hfaults
  have hbegin : query (fun _ _ => ()) c = (.ok (), c.next) := by
    rw [query_run, hfaults 0 (by omega)]
  obtain ⟨a, c₁, hbody, hQ, hshift⟩ := h c.next hP fun i hi => hfaults (i + 1) (by omega)
  have hcommit : query (fun _ _ => ()) c₁ = (.ok (), c₁.next) := by
    have hlast : (c₁.replies 0).error = none := by
      rw [hshift]
      exact hfaults (0 + n + 1) (by omega)
    rw [query_run, hlast]
  refine ⟨a, c₁.next, ?_, hQ, ?_⟩
  · rw [Sqlite.transaction, hbegin]
    simp only [hbody, hcommit]
  · funext i
    show c₁.replies (i + 1) = c.replies (i + (1 + (n + 1)))
    rw [hshift]
    show c.replies (i + 1 + n + 1) = c.replies (i + (1 + (n + 1)))
    congr 1
    omega

end Statements

end Sqlite
