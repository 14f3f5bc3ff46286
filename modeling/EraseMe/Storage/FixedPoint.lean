import EraseMe.Storage.Rebuild

/-!
# A second rebuild

A rebuild writes the id of the last replayable event in replay order, and a state looks out of
date while any event of its request has a larger id.  So a backdated event, or a last row that the
replay skips, keeps its request out of date: every rebuild selects it again
(`rebuildAllStates_fixedPoint_iff`).
-/

namespace EraseMe.Storage

open Chrono Json Sqlite

variable {τ : Type} {A : Reply → Prop} (arch : TargetArch)

/-- The id of the last replayable event in replay order, or zero. -/
def lastReplayedId (events : List EventRecord) : ℤ :=
  ((events.reverse.find? fun event => ¬ event.Skipped).map EventRecord.id).getD 0

theorem lastReplayedId_append (events : List EventRecord) (event : EventRecord) :
    lastReplayedId (events ++ [event]) =
      if event.Skipped then lastReplayedId events else event.id := by
  rw [lastReplayedId, List.reverse_append, List.reverse_singleton, List.singleton_append,
    List.find?_cons]
  by_cases h : event.Skipped
  · simp [h, lastReplayedId]
  · simp [h]

theorem foldEvents_lastEventId_eq (requestId : ℤ) (events : List EventRecord) :
    (foldEvents arch requestId events).lastEventId = lastReplayedId events := by
  induction events using List.reverseRecOn with
  | nil => rfl
  | append_singleton events event ih =>
    rw [foldEvents_append, (replayEvent_lastEvent arch _ event).1, lastReplayedId_append, ih]

/-- A current state looks out of date exactly if some event has a larger id than the last one
replayed. -/
theorem Store.Current.dirty_iff {db : Store} {id : ℤ} (h : db.Current arch id) :
    db.dirty id = true ↔ ∃ row ∈ db.eventRows id, lastReplayedId (db.replayed id) < row.1 := by
  obtain ⟨now, hstate⟩ := h
  rw [Store.dirty, hstate, List.any_eq_true]
  simp only [decide_eq_true_eq, gt_iff_lt]
  rw [show (stateColumns (foldEvents arch id (db.replayed id)) now).lastEventId =
    lastReplayedId (db.replayed id) from foldEvents_lastEventId_eq arch id _]

/-- The requests that look out of date. -/
def Store.dirtyRequests (db : Store) : List ℤ := (db.requests.rows.map Prod.fst).filter db.dirty

/-- A rebuild that finds nothing out of date returns zero, and one that returns zero found
nothing. -/
theorem rebuildAllStates_count (db₁ : Store) (tr₁ : List τ) (chunkSize : ℕ) :
    Triple A (fun db tr => db = db₁ ∧ tr = tr₁) (rebuildAllStates arch chunkSize)
      fun r _ _ => match r with
        | .ok n => n = db₁.dirtyRequests.length
        | .error _ => db₁.dirtyRequests = [] → CanFail A := by
  unfold rebuildAllStates
  have hsize : 0 < if chunkSize = 0 then 100 else chunkSize := by split_ifs <;> omega
  generalize (if chunkSize = 0 then 100 else chunkSize) = size at hsize
  refine Triple.bind
    (R := fun r _ _ => match r with
      | .ok dirty => dirty.Perm db₁.dirtyRequests
      | .error _ => CanFail A)
    (Triple.mapError (Triple.query ?_ ?_)) (fun dirty => ?_) (fun _ _ _ h _ => h)
  · rintro r db tr - ⟨rfl, rfl⟩
    exact List.perm_insertionSort _ _
  · rintro r db tr e hr - he
    exact ⟨r, e, hr, he⟩
  · refine Triple.ghost fun db tr hperm => ?_
    have hloop : Triple A (fun db' tr' => db' = db ∧ tr' = tr)
        (forEach (fun chunk => forEach (upsertState arch) chunk) (chunks size dirty.length dirty))
        fun r _ _ => match r with
          | .ok rebuilt => (rebuilt.map List.length).sum = dirty.length
          | .error _ => dirty ≠ [] := by
      cases hdirty : dirty with
      | nil => exact Triple.pure fun _ _ _ => rfl
      | cons id ids =>
        rw [← hdirty]
        have hne : dirty ≠ [] := by simp [hdirty]
        refine ((Triple.forEach
          (fun done rebuilt _ _ => (rebuilt.map List.length).sum = done.flatten.length)
          (fun _ _ _ => dirty ≠ []) (fun pre chunk post rebuilt _ => ?_)).conseq
            (fun _ _ _ => rfl) fun r db' tr' h => ?_)
        · refine Triple.ghost fun db₂ tr₂ hsum => ?_
          refine ((Triple.forEach (fun done states _ _ => states.length = done.length)
            (fun _ _ _ => dirty ≠ []) (fun done id _ states _ => ?_)).conseq
              (fun _ _ _ => rfl) fun r db' tr' h => ?_)
          · intro c hA hlength
            obtain ⟨hA', -⟩ := upsertState_spec arch c.db c.trace id c hA ⟨rfl, rfl⟩
            refine ⟨hA', ?_⟩
            cases (upsertState arch id c).1 with
            | ok a => simp [hlength]
            | error e => exact hne
          · cases r with
            | ok states => simp [hsum, h]
            | error e => exact h
        · cases r with
          | ok rebuilt =>
            dsimp only at h ⊢
            rw [h, flatten_chunks hsize _ _ le_rfl]
          | error e => exact h
    refine Triple.bind hloop (fun rebuilt => ?_) fun e db' tr' hne hnil => ?_
    · exact Triple.pure fun _ _ h => h.trans hperm.length_eq
    · exact absurd (List.perm_nil.1 (hnil ▸ hperm)) hne

/-- After any run of the writers from a store without state rows, with any statements failing, and
a rebuild that succeeds, nothing looks out of date and a second rebuild returns zero, unless its
query fails, exactly if no event of a request has a larger id than the last one replayed. -/
theorem rebuildAllStates_fixedPoint_iff {c₀ c₁ : Conn Store τ} (h₀ : ∀ id, c₀.db.state id = none)
    (ops : List Operation) (chunkSize n : ℕ)
    (hok : rebuildAllStates arch chunkSize (runOperations arch ops c₀) = (.ok n, c₁)) :
    (c₁.db.dirtyRequests = [] ∧ ∀ chunkSize', (∀ k, Faultless (c₁.replies k)) →
        (rebuildAllStates arch chunkSize' c₁).1 = .ok 0) ↔
      ∀ id ∈ (runOperations arch ops c₀).db.requests.rows.map Prod.fst,
        ∀ row ∈ (runOperations arch ops c₀).db.eventRows id,
          row.1 ≤ lastReplayedId ((runOperations arch ops c₀).db.replayed id) := by
  have hclean : NeverLooksClean arch (runOperations arch ops c₀).db :=
    neverLooksClean_runOperations arch ops (neverLooksClean_of_none arch h₀)
  have hrun := (rebuildAllStates_rebuilt (A := AnyReply) arch _ _ chunkSize).run
    (runOperations arch ops c₀) ⟨rfl, rfl⟩
  rw [hok] at hrun
  obtain ⟨done, hdone, hreb⟩ := hrun
  generalize (runOperations arch ops c₀).db = db at hclean hdone hreb
  have hrows : ∀ id, c₁.db.eventRows id = db.eventRows id := by
    intro id
    rw [Store.eventRows, hreb.events_eq]
    rfl
  have hreplayed : ∀ id, c₁.db.replayed id = db.replayed id := by
    intro id
    rw [Store.replayed, Store.replayed, Store.replayRows, Store.replayRows, hrows]
  have hdirty : c₁.db.dirtyRequests = [] ↔ ∀ id ∈ db.requests.rows.map Prod.fst,
      ∀ row ∈ db.eventRows id, row.1 ≤ lastReplayedId (db.replayed id) := by
    rw [Store.dirtyRequests, List.filter_eq_nil_iff, hreb.requests_eq]
    refine forall₂_congr fun id hid => ?_
    by_cases hevent : c₁.db.eventRows id = []
    · have hclean' : ¬ c₁.db.dirty id = true := by simp [Store.dirty, hevent]
      rw [← hrows, hevent]
      simp [hclean']
    · have hcurrent : c₁.db.Current arch id :=
        hreb.current_of_event arch hclean hdone (hreb.requests_eq ▸ hid) hevent
      rw [hcurrent.dirty_iff, hrows, hreplayed]
      push Not
      rfl
  rw [← hdirty]
  constructor
  · exact fun h => h.1
  · intro hnil
    refine ⟨hnil, fun chunkSize' hreplies => ?_⟩
    have hcount := (rebuildAllStates_count (A := Faultless) arch c₁.db c₁.trace chunkSize' c₁
      hreplies ⟨rfl, rfl⟩).2
    generalize (rebuildAllStates arch chunkSize' c₁).1 = r at hcount
    cases r with
    | ok m => rw [hcount, hnil]; rfl
    | error e => exact absurd (hcount hnil) not_canFail_faultless

/-- A request and two events in the order of their instants. -/
def sentThenNoted : List Operation :=
  [.createRemovalRequest "acme" "email" "spring" "GDPR" "gdpr-art17.md.j2" "",
    .appendEvent 1 .sent [] .system (.ofSecs 1767225600 jan1_inRange),
    .appendEvent 1 .noteAdded [] .user (.ofSecs 1767312000 jan2_inRange)]

/-- A second rebuild finds nothing to do. -/
theorem rebuildAllStates_sentThenNoted :
    (rebuildAllStates .x86_64 0 (runOperations .x86_64 sentThenNoted
      (Store.fresh.connect : Conn Store Unit))).2.db.dirtyRequests = [] := by
  have hfresh : ∀ id, (Store.fresh.connect : Conn Store Unit).db.state id = none := fun _ => rfl
  exact ((rebuildAllStates_fixedPoint_iff .x86_64 hfresh sentThenNoted 0 1
    (Prod.ext (by rfl) rfl)).2 (by decide)).1

/-- Each rebuild writes the request with the backdated note again. -/
theorem rebuildAllStates_backdated :
    ∃ c₁, rebuildAllStates .x86_64 0 (runOperations .x86_64 backdatedNote
        (Store.fresh.connect : Conn Store Unit)) = (.ok 1, c₁) ∧
      c₁.db.dirtyRequests = [1] ∧ (rebuildAllStates .x86_64 0 c₁).1 = .ok 1 := by
  refine ⟨_, Prod.ext (by rfl) rfl, by rfl, by rfl⟩

end EraseMe.Storage
