import EraseMe.Tick

/-!
# Batched ticks

A batch size limits the candidates a tick reads, before the rules decide whether any of them is
due.  No event sets the next action, so every request with a state is a candidate, and the engine
orders them as it likes: a batch may hold only requests without an action while others are due.
`batchHidesNothing_iff` says when no order of the engine makes it so.
-/

namespace EraseMe.Deadlines

open Chrono Json Sqlite Storage

variable {τ : Type} (arch : TargetArch)

/-! ### The order of the candidates -/

instance (rank : ℤ → ℕ) : Std.Total (NextActionLe rank) := ⟨fun a b => by
  obtain ⟨x, a⟩ := a
  obtain ⟨y, b⟩ := b
  cases x with
  | none =>
    cases y with
    | none => exact tieLe_total rank a.id b.id
    | some y => exact Or.inl trivial
  | some x =>
    cases y with
    | none => exact Or.inr trivial
    | some y =>
      rcases lt_trichotomy x y with h | rfl | h
      · exact Or.inl (Or.inl h)
      · exact (tieLe_total rank a.id b.id).imp (fun h => Or.inr ⟨rfl, h⟩) fun h => Or.inr ⟨rfl, h⟩
      · exact Or.inr (Or.inl h)⟩

instance (rank : ℤ → ℕ) : IsTrans (Option String × TickCandidate) (NextActionLe rank) :=
  ⟨fun a b c hab hbc => by
    obtain ⟨x, a⟩ := a
    obtain ⟨y, b⟩ := b
    obtain ⟨z, c⟩ := c
    cases x with
    | none =>
      cases z with
      | none =>
        cases y with
        | none => exact tieLe_trans hab hbc
        | some y => cases hbc
      | some z => trivial
    | some x =>
      cases y with
      | none => cases hab
      | some y =>
        cases z with
        | none => cases hbc
        | some z =>
          rcases hab with hxy | ⟨rfl, hab⟩
          · rcases hbc with hyz | ⟨rfl, -⟩
            · exact Or.inl (hxy.trans hyz)
            · exact Or.inl hxy
          · rcases hbc with hyz | ⟨rfl, hbc⟩
            · exact Or.inl hyz
            · exact Or.inr ⟨rfl, tieLe_trans hab hbc⟩⟩

/-- No state has a next action. -/
def Unscheduled (db : Store) : Prop := ∀ id row, db.state id = some row → row.nextActionAt = none

theorem kept_unscheduled : Kept arch Unscheduled where
  withEvent _ _ h := h
  projected db id now h := by
    intro id' row hrow
    by_cases heq : id' = id
    · rw [heq, projected_state_self] at hrow
      cases hrow
      exact foldEvents_nextActionAt arch _ _
    · rw [projected_state_of_ne _ _ _ _ heq] at hrow
      exact h id' row hrow
  withRequest _ _ h := h

/-! ### Candidates without an action -/

/-- The rules leave the candidate alone. -/
def Idle (now : DateTime) (dryRun : Bool) (request : TickCandidate) : Bool :=
  match actionsForCandidate request now dryRun with
  | .ok [] => true
  | _ => false

theorem idle_iff {now : DateTime} {dryRun : Bool} {request : TickCandidate} :
    Idle now dryRun request = true ↔ actionsForCandidate request now dryRun = .ok [] := by
  unfold Idle
  split
  · next h => simp [h]
  · next h => simpa using fun hidle => h hidle

theorem actionsForCandidates_eq_nil {now : DateTime} {dryRun : Bool}
    {requests : List TickCandidate} :
    actionsForCandidates now dryRun requests = .ok [] ↔
      ∀ request ∈ requests, Idle now dryRun request = true := by
  induction requests with
  | nil => simp [actionsForCandidates]
  | cons request requests ih =>
    rw [actionsForCandidates_cons, List.forall_mem_cons, ← ih, idle_iff]
    constructor
    · rintro ⟨head, tail, hhead, htail, hnil⟩
      obtain ⟨rfl, rfl⟩ := List.append_eq_nil_iff.1 hnil.symm
      exact ⟨hhead, htail⟩
    · rintro ⟨hhead, htail⟩
      exact ⟨[], [], hhead, htail, rfl⟩

/-! ### Ticks under a fixed order -/

/-- The engine that never fails and orders equal rows by a rank. -/
def ranked (db : Store) (rank : ℤ → ℕ) : Conn Store Unit := ⟨db, [], fun _ => ⟨none, epoch, rank⟩⟩

/-- The candidates in the order of the engine. -/
def inOrder (db : Store) (rank : ℤ → ℕ) (now : DateTime) : List TickCandidate :=
  ((db.dueRows (Timeutil.formatIso now)).insertionSort (NextActionLe rank)).map Prod.snd

/-- A tick with some batch size returns no action. -/
def NoAction (db : Store) (rank : ℤ → ℕ) (now : DateTime) (dryRun : Bool) (batchSize : ℤ) : Prop :=
  (runTick ⟨dryRun, batchSize⟩ now (ranked db rank)).1 = .ok []

theorem noAction_iff {db : Store} {rank : ℤ → ℕ} {now : DateTime} {dryRun : Bool} {b : ℤ} :
    NoAction db rank now dryRun b ↔
      ∀ request ∈ (if b > 0 then (inOrder db rank now).take b.toNat else inOrder db rank now),
        Idle now dryRun request = true := by
  rw [← actionsForCandidates_eq_nil, NoAction, runTick]
  have hquery : Db.mapError (fetchTickCandidates (τ := Unit) (Timeutil.formatIso now) b)
      DeadlinesError.database (ranked db rank) =
      (.ok (if b > 0 then (inOrder db rank now).take b.toNat else inOrder db rank now),
        (ranked db rank).next) := by
    rw [fetchTickCandidates, mapError_query_run_ok (show ((ranked db rank).replies 0).error = none
      from rfl)]
    rfl
  rw [bind_run_ok hquery]
  generalize (if b > 0 then (inOrder db rank now).take b.toNat else inOrder db rank now) =
    candidates
  cases actionsForCandidates now dryRun candidates with
  | ok actions =>
    show (Except.ok actions : Except DeadlinesError _) = .ok [] ↔
      (Except.ok actions : Except String _) = .ok []
    simp
  | error message =>
    show (Except.error (.stopped message) : Except DeadlinesError (List TickAction)) = .ok [] ↔ _
    simp

/-! ### What a batch hides -/

/-- The candidates of a tick. -/
def candidates (db : Store) (now : DateTime) : List TickCandidate :=
  (db.dueRows (Timeutil.formatIso now)).map Prod.snd

theorem inOrder_perm (db : Store) (rank : ℤ → ℕ) (now : DateTime) :
    (inOrder db rank now).Perm (candidates db now) :=
  (List.perm_insertionSort _ _).map _

/-- Without next actions the candidates come in the order of the engine alone. -/
theorem pairwise_inOrder {db : Store} (h : Unscheduled db) (rank : ℤ → ℕ) (now : DateTime) :
    (inOrder db rank now).Pairwise fun a b => rank a.id ≤ rank b.id := by
  rw [inOrder, List.pairwise_map]
  refine (List.pairwise_insertionSort (NextActionLe rank) _).imp_of_mem fun {a b} ha hb hab => ?_
  have hnone : ∀ due ∈ (db.dueRows (Timeutil.formatIso now)).insertionSort (NextActionLe rank),
      due.1 = none := by
    intro due hdue
    obtain ⟨row, -, state, hstate, -, rfl⟩ := mem_dueRows.1 ((List.mem_insertionSort _).1 hdue)
    exact h _ _ hstate
  obtain ⟨x, a⟩ := a
  obtain ⟨y, b⟩ := b
  have hx : x = none := hnone _ ha
  have hy : y = none := hnone _ hb
  subst hx hy
  rcases hab with hlt | ⟨heq, -⟩
  · exact hlt.le
  · exact heq.le

/-- The order of the engine that puts the candidates without an action first. -/
def idleFirst (db : Store) (now : DateTime) (dryRun : Bool) (id : ℤ) : ℕ :=
  if (candidates db now).any fun request => request.id = id ∧ Idle now dryRun request then 0 else 1

theorem idleFirst_of_idle {db : Store} {now : DateTime} {dryRun : Bool} {request : TickCandidate}
    (hmem : request ∈ candidates db now) (hidle : Idle now dryRun request = true) :
    idleFirst db now dryRun request.id = 0 :=
  if_pos (List.any_eq_true.2 ⟨request, hmem, by simp [hidle]⟩)

theorem idle_of_idleFirst {db : Store} {now : DateTime} {dryRun : Bool} {request : TickCandidate}
    (hmem : request ∈ candidates db now) (hrank : idleFirst db now dryRun request.id = 0) :
    Idle now dryRun request = true := by
  by_contra hnot
  have hany : ¬ ((candidates db now).any fun other =>
      other.id = request.id ∧ Idle now dryRun other) = true := by
    intro hany
    obtain ⟨other, hother, hboth⟩ := List.any_eq_true.1 hany
    simp only [decide_eq_true_eq] at hboth
    -- the candidates have different ids
    have hnodup : ((candidates db now).map TickCandidate.id).Nodup := by
      rw [candidates, List.map_map]
      exact nodup_dueRows db _
    have hsame : other = request := List.inj_on_of_nodup_map hnodup hother hmem hboth.1
    exact hnot (hsame ▸ hboth.2)
  rw [idleFirst, if_neg hany] at hrank
  cases hrank

/-- In every store that a run of the writers reaches, a batch returns no action only where an
unlimited tick returns none, for every order of the engine, exactly if no candidate has an action
or fewer candidates than the batch holds have none. -/
theorem batchHidesNothing_iff {c₀ : Conn Store τ} (h₀ : ∀ id, c₀.db.state id = none)
    (ops : List Operation) (now : DateTime) (dryRun : Bool) {b : ℤ} (hb : 0 < b) :
    (∀ rank, NoAction (runOperations arch ops c₀).db rank now dryRun b →
        NoAction (runOperations arch ops c₀).db rank now dryRun 0) ↔
      (∀ request ∈ candidates (runOperations arch ops c₀).db now,
        Idle now dryRun request = true) ∨
      ((candidates (runOperations arch ops c₀).db now).countP (Idle now dryRun) : ℤ) < b := by
  have hunscheduled : Unscheduled (runOperations arch ops c₀).db :=
    (kept_unscheduled arch).runOperations arch ops fun id row h => by
      rw [h₀] at h
      cases h
  generalize (runOperations arch ops c₀).db = db at hunscheduled
  have hbatch : ∀ rank, NoAction db rank now dryRun b ↔
      ∀ request ∈ (inOrder db rank now).take b.toNat, Idle now dryRun request = true := by
    intro rank
    rw [noAction_iff, if_pos hb]
  have hall : ∀ rank, NoAction db rank now dryRun 0 ↔
      ∀ request ∈ candidates db now, Idle now dryRun request = true := by
    intro rank
    rw [noAction_iff, if_neg (lt_irrefl _)]
    exact forall_congr' fun request => by rw [(inOrder_perm db rank now).mem_iff]
  simp only [hbatch, hall]
  constructor
  · intro h
    by_contra hnot
    obtain ⟨hsome, hmany⟩ := not_or.1 hnot
    -- the order that puts the candidates without an action first fills the batch with them
    refine hsome (h (idleFirst db now dryRun) ?_)
    refine Sorted.forall_mem_take_of_le_countP ?_ ?_
    · refine (pairwise_inOrder hunscheduled _ now).imp_of_mem fun {a a'} ha ha' hle hidle => ?_
      have hmem := (inOrder_perm db (idleFirst db now dryRun) now).mem_iff.1 ha
      have hmem' := (inOrder_perm db (idleFirst db now dryRun) now).mem_iff.1 ha'
      rw [idleFirst_of_idle hmem' hidle] at hle
      exact idle_of_idleFirst hmem (Nat.le_zero.1 hle)
    · rw [(inOrder_perm db _ now).countP_eq]
      omega
  · rintro (hidle | hfew) rank htake
    · exact hidle
    · have hlength : (inOrder db rank now).length ≤ b.toNat := by
        by_contra hlong
        -- a full batch of candidates without an action would be too many of them
        have hcount : ((inOrder db rank now).take b.toNat).countP (Idle now dryRun) = b.toNat := by
          rw [List.countP_eq_length.2 htake, List.length_take]
          omega
        have hle : ((inOrder db rank now).take b.toNat).countP (Idle now dryRun) ≤
            (inOrder db rank now).countP (Idle now dryRun) :=
          (List.take_sublist _ _).countP_le
        rw [hcount, (inOrder_perm db rank now).countP_eq] at hle
        omega
      rw [List.take_of_length_le hlength] at htake
      exact fun request hmem => htake request ((inOrder_perm db rank now).mem_iff.2 hmem)

/-- Two requests, the second sent 31 days before the first. -/
def sentApart : List Operation :=
  [newRequest "acme", newRequest "bolt",
    .appendAndProject 1 .sent [] .system (.ofSecs 1769904000 feb1_inRange),
    .appendAndProject 2 .sent [] .system (.ofSecs 1767225600 jan1_inRange)]

/-- A batch of two hides nothing of them. -/
theorem batchHidesNothing_sentApart : ¬ ∃ rank,
    NoAction (runOperations .x86_64 sentApart (Store.fresh.connect : Conn Store Unit)).db rank
        (.ofSecs 1769904000 (by decide)) false 2 ∧
      ¬ NoAction (runOperations .x86_64 sentApart (Store.fresh.connect : Conn Store Unit)).db rank
        (.ofSecs 1769904000 (by decide)) false 0 := by
  have hfresh : ∀ id, (Store.fresh.connect : Conn Store Unit).db.state id = none := fun _ => rfl
  rintro ⟨rank, hbatch, hall⟩
  refine hall ((batchHidesNothing_iff .x86_64 hfresh sentApart _ false (by decide)).2
    (Or.inr ?_) rank hbatch)
  decide

/-- A batch of one returns no action, though the second request is due for a reminder. -/
theorem batch_hides_sentApart :
    NoAction (runOperations .x86_64 sentApart (Store.fresh.connect : Conn Store Unit)).db
        (fun _ => 0) (.ofSecs 1769904000 (by decide)) false 1 ∧
      ¬ NoAction (runOperations .x86_64 sentApart (Store.fresh.connect : Conn Store Unit)).db
        (fun _ => 0) (.ofSecs 1769904000 (by decide)) false 0 := by
  constructor
  · rw [noAction_iff]
    decide
  · rw [noAction_iff]
    decide

end EraseMe.Deadlines
