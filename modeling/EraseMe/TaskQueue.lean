import EraseMe.Library.Run
import EraseMe.Manualtasks

/-!
# The manual-task queue over a run

Calls of `create` and `complete` follow each other on one store, and any of their statements may
fail.  `Matched` is what they keep: no two pending rows stand for the same task, and the events
that ask for human action name exactly the rows that belong to a request.
-/

namespace EraseMe.Manualtasks

open Chrono Identity Json Sqlite Storage

variable {τ : Type}

/-! ### Tasks and their events -/

/-- The task named by a `HUMAN_ACTION_REQUIRED` event. -/
def namedTask (row : EventColumns) : Option ℤ :=
  if row.eventType = EventType.humanActionRequired.asStr then
    match row.payloadJson with
    | .document (.object fields) =>
        match Map.get fields "manual_task_id" with
        | some (.int id) => some id
        | _ => none
    | _ => none
  else none

theorem namedTask_of_ne {row : EventColumns}
    (h : row.eventType ≠ EventType.humanActionRequired.asStr) : namedTask row = none := by
  rw [namedTask, if_neg h]

/-- The event of a new task names it. -/
theorem namedTask_taskPayload (env : Env) (opts : CreateOpts) (profile : Option Profile)
    (taskId requestId : ℤ) (columns : TaskColumns) (source : Source)
    (occurredAt recordedAt : DateTime) :
    namedTask (eventColumns requestId .humanActionRequired
      (taskPayload env opts profile taskId columns) source occurredAt recordedAt) =
        some taskId := by
  have hpayload : payloadText (taskPayload env opts profile taskId columns) =
      .document (.object (sortedMap (taskPayload env opts profile taskId columns))) := by
    rw [← goMapOrder_object]
    rfl
  have hget : Map.get (sortedMap (taskPayload env opts profile taskId columns))
      "manual_task_id" = some (.int taskId) := by
    rw [get_sortedMap]
    rfl
  unfold namedTask
  simp only [eventColumns, if_true, hpayload, hget]

/-- What `create` takes for the same task. -/
def queueKey (columns : TaskColumns) : Option ℤ × String × String × String :=
  (columns.requestId, columns.brokerId, columns.formUrl, columns.reason)

/-- The queue has no duplicates and matches the event log. -/
structure Matched (db : Store) : Prop where
  pending_unique : ∀ a ∈ db.tasks.rows, ∀ b ∈ db.tasks.rows, a.2.status = "pending" →
    b.2.status = "pending" → queueKey a.2 = queueKey b.2 → a = b
  event_of_task : ∀ task ∈ db.tasks.rows, (∃ requestId ∈ task.2.requestId, requestId ≠ 0) →
    ∃! event, event ∈ db.events.rows ∧ namedTask event.2 = some task.1
  task_of_event : ∀ event ∈ db.events.rows, ∀ id, namedTask event.2 = some id →
    ∃ task ∈ db.tasks.rows, task.1 = id

/-- A store without tasks, and without events that name one. -/
theorem matched_of_empty {db : Store} (htasks : db.tasks.rows = [])
    (hevents : ∀ event ∈ db.events.rows, namedTask event.2 = none) : Matched db where
  pending_unique a ha := by simp [htasks] at ha
  event_of_task task htask := by simp [htasks] at htask
  task_of_event event hevent id hid := by simp [hevents event hevent] at hid

namespace Matched

variable {db : Store} {columns : TaskColumns}

/-- A projection changes neither table. -/
theorem projected (h : Matched db) (arch : TargetArch) (requestId : ℤ) (now : DateTime) :
    Matched (db.projected arch requestId now) :=
  ⟨h.pending_unique, h.event_of_task, h.task_of_event⟩

/-- No event names a task that is still to come. -/
theorem namedTask_ne (h : Matched db) {event : ℤ × EventColumns} (hevent : event ∈ db.events.rows) :
    namedTask event.2 ≠ some (db.tasks.seq + 1) := by
  intro hname
  obtain ⟨task, htask, hid⟩ := h.task_of_event event hevent _ hname
  have := db.tasks.le_seq task htask
  omega

theorem pending_insert (h : Matched db)
    (hkey : ∀ a ∈ db.tasks.rows, a.2.status = "pending" → queueKey a.2 ≠ queueKey columns) :
    ∀ a ∈ (db.tasks.insert columns).rows, ∀ b ∈ (db.tasks.insert columns).rows,
      a.2.status = "pending" → b.2.status = "pending" → queueKey a.2 = queueKey b.2 → a = b := by
  intro a ha b hb hpa hpb hab
  rw [Table.insert_rows, List.mem_append, List.mem_singleton] at ha hb
  rcases ha with ha | rfl
  · rcases hb with hb | rfl
    · exact h.pending_unique a ha b hb hpa hpb hab
    · exact absurd hab (hkey a ha hpa)
  · rcases hb with hb | rfl
    · exact absurd hab.symm (hkey b hb hpb)
    · rfl

/-- A new row that belongs to no request. -/
theorem withTask (h : Matched db)
    (hkey : ∀ a ∈ db.tasks.rows, a.2.status = "pending" → queueKey a.2 ≠ queueKey columns)
    (hnone : columns.requestId.filter (· ≠ 0) = none) : Matched (withTask db columns) where
  pending_unique := h.pending_insert hkey
  event_of_task task htask hreq := by
    rcases List.mem_append.1 htask with htask | htask
    · exact h.event_of_task task htask hreq
    · obtain ⟨requestId, hmem, hne⟩ := hreq
      rw [List.mem_singleton.1 htask] at hmem
      have := Option.filter_eq_none_iff.1 hnone requestId hmem
      simp [hne] at this
  task_of_event event hevent id hid := by
    obtain ⟨task, htask, hid⟩ := h.task_of_event event hevent id hid
    exact ⟨task, List.mem_append_left _ htask, hid⟩

/-- A new row, and the event that names it. -/
theorem withTask_withEvent (h : Matched db)
    (hkey : ∀ a ∈ db.tasks.rows, a.2.status = "pending" → queueKey a.2 ≠ queueKey columns)
    {row : EventColumns} (hrow : namedTask row = some (db.tasks.seq + 1)) :
    Matched ((Manualtasks.withTask db columns).withEvent row) where
  pending_unique := h.pending_insert hkey
  event_of_task task htask hreq := by
    have hmem : ∀ event, event ∈ (db.events.insert row).rows ↔
        event ∈ db.events.rows ∨ event = (db.events.seq + 1, row) := by
      intro event
      rw [Table.insert_rows, List.mem_append, List.mem_singleton]
    rcases List.mem_append.1 htask with htask | htask
    · -- an earlier row keeps its event: the new one names a larger id
      obtain ⟨event, ⟨hevent, hname⟩, huniq⟩ := h.event_of_task task htask hreq
      refine ⟨event, ⟨(hmem event).2 (Or.inl hevent), hname⟩, ?_⟩
      rintro event' ⟨hevent', hname'⟩
      rcases (hmem event').1 hevent' with hevent' | rfl
      · exact huniq event' ⟨hevent', hname'⟩
      · have hle := db.tasks.le_seq task htask
        have hid : db.tasks.seq + 1 = task.1 := Option.some.inj (hrow.symm.trans hname')
        omega
    · rw [List.mem_singleton.1 htask]
      refine ⟨(db.events.seq + 1, row), ⟨(hmem _).2 (Or.inr rfl), hrow⟩, ?_⟩
      rintro event ⟨hevent, hname⟩
      rcases (hmem event).1 hevent with hevent | rfl
      · exact absurd hname (h.namedTask_ne hevent)
      · rfl
  task_of_event event hevent id hid := by
    rcases List.mem_append.1 hevent with hevent | hevent
    · obtain ⟨task, htask, hid⟩ := h.task_of_event event hevent id hid
      exact ⟨task, List.mem_append_left _ htask, hid⟩
    · rw [List.mem_singleton.1 hevent] at hid
      exact ⟨(db.tasks.seq + 1, columns), List.mem_append_right _ (List.mem_singleton.2 rfl),
        Option.some.inj (hrow.symm.trans hid)⟩

/-- A closed row is not pending and keeps its id, its request and its key. -/
theorem withClosed (h : Matched db) (taskId : ℤ) (notes : String) (completed : Bool)
    (now : DateTime) : Matched (withClosed taskId notes completed now db) where
  pending_unique a ha b hb hpa hpb hab := by
    have hopen : ∀ r ∈ (Manualtasks.withClosed taskId notes completed now db).tasks.rows,
        r.2.status = "pending" → r ∈ db.tasks.rows := by
      intro r hr hpending
      obtain ⟨r', hr', rfl⟩ := Table.mem_update.1 hr
      split_ifs at hpending ⊢ with hid
      · cases completed <;> simp [closedColumns] at hpending
      · exact hr'
    exact h.pending_unique a (hopen a ha hpa) b (hopen b hb hpb) hpa hpb hab
  event_of_task task htask hreq := by
    obtain ⟨task', htask', rfl⟩ := Table.mem_update.1 htask
    have hsame : (if task'.1 = taskId then
        (task'.1, closedColumns task'.2 completed notes now) else task').1 = task'.1 := by
      split_ifs <;> rfl
    rw [hsame]
    refine h.event_of_task task' htask' ?_
    split_ifs at hreq
    · exact hreq
    · exact hreq
  task_of_event event hevent id hid := by
    obtain ⟨task, htask, hid⟩ := h.task_of_event event hevent id hid
    refine ⟨_, Table.mem_update.2 ⟨task, htask, rfl⟩, ?_⟩
    split_ifs <;> exact hid

/-- An event of another type names no task. -/
theorem withEvent (h : Matched db) {row : EventColumns} (hrow : namedTask row = none) :
    Matched (db.withEvent row) where
  pending_unique := h.pending_unique
  event_of_task task htask hreq := by
    obtain ⟨event, ⟨hevent, hname⟩, huniq⟩ := h.event_of_task task htask hreq
    refine ⟨event, ⟨List.mem_append_left _ hevent, hname⟩, ?_⟩
    rintro event' ⟨hevent', hname'⟩
    rcases List.mem_append.1 hevent' with hevent' | hevent'
    · exact huniq event' ⟨hevent', hname'⟩
    · rw [List.mem_singleton.1 hevent', hrow] at hname'
      cases hname'
  task_of_event event hevent id hid := by
    rcases List.mem_append.1 hevent with hevent | hevent
    · exact h.task_of_event event hevent id hid
    · rw [List.mem_singleton.1 hevent, hrow] at hid
      cases hid

end Matched

/-! ### Calls -/

/-- No pending row stands for the task asked for. -/
theorem queueKey_ne_of_pendingFor {env : Env} {db : Store} {opts : CreateOpts}
    {profile : Option Profile} (h : pendingFor env db opts profile = none)
    (path createdAt : String) (a : ℤ × TaskColumns) (ha : a ∈ db.tasks.rows)
    (hpending : a.2.status = "pending") :
    queueKey a.2 ≠ queueKey (taskColumns env opts profile path createdAt) := by
  intro hkey
  have hall := List.find?_eq_none.1 h a ha
  simp only [queueKey, taskColumns, Prod.mk.injEq] at hkey
  obtain ⟨hid, hbroker, hurl, hreason⟩ := hkey
  exact hall (decide_eq_true ⟨hpending, hbroker, hurl, hreason, hid⟩)

theorem Matched.inserted {env : Env} {opts : CreateOpts} {profile : Option Profile}
    {now : DateTime} {path : String} {db₀ db : Store} (h : Matched db₀)
    (hpending : pendingFor env db₀ opts profile = none)
    (hinserted : Inserted env opts profile now path db₀ db) : Matched db := by
  obtain ⟨createdAt, ⟨hnone, rfl⟩ | ⟨requestId, -, recordedAt, projectedAt, rfl⟩⟩ := hinserted
  · exact h.withTask (queueKey_ne_of_pendingFor hpending path createdAt) hnone
  · refine Matched.projected ?_ _ _ _
    exact h.withTask_withEvent (queueKey_ne_of_pendingFor hpending path createdAt)
      (namedTask_taskPayload env opts profile _ requestId _ _ _ _)

theorem Matched.closed {arch : TargetArch} {taskId : ℤ} {notes : String} {completed : Bool}
    {now : DateTime} {db₀ db : Store} (h : Matched db₀)
    (hclosed : Closed arch taskId notes completed now db₀ db) : Matched db := by
  obtain ⟨columns, -, ⟨-, rfl⟩ | ⟨requestId, recordedAt, projectedAt, -, rfl⟩⟩ := hclosed
  · exact h.withClosed taskId notes completed now
  · refine Matched.projected ?_ _ _ _
    exact (h.withClosed taskId notes completed now).withEvent
      (namedTask_of_ne (by simp [eventColumns, EventType.asStr]))

/-- One call, with any answers of the engine. -/
inductive QueueStep (τ : Type) : Store → Store → Prop
  | create (env : Env) (opts : CreateOpts) (profile : Option Profile) (now : DateTime)
      (c : Conn Store τ) : QueueStep τ c.db (create env opts profile now c).2.db
  | complete (arch : TargetArch) (taskId : ℤ) (notes : String) (completed : Bool)
      (now : DateTime) (c : Conn Store τ) :
      QueueStep τ c.db (complete arch taskId notes completed now c).2.db

theorem matched_step (db db' : Store) (hstep : QueueStep τ db db') (h : Matched db) :
    Matched db' := by
  cases hstep with
  | create env opts profile now c =>
    have hrun := (create_returns (A := AnyReply) env opts profile now c.db c.trace).run c
      ⟨rfl, rfl⟩
    generalize create env opts profile now c = r at hrun
    obtain ⟨r, c'⟩ := r
    cases r with
    | ok task =>
      obtain ⟨-, ⟨row, -, -, hdb⟩ | ⟨hpending, path, -, hinserted⟩⟩ := hrun
      · exact hdb ▸ h
      · exact h.inserted hpending hinserted
    | error e =>
      obtain ⟨-, hdb, -⟩ := hrun
      exact hdb ▸ h
  | complete arch taskId notes completed now c =>
    have hrun := (complete_returns (A := AnyReply) arch taskId notes completed now c.db
      c.trace).run c ⟨rfl, rfl⟩
    generalize complete arch taskId notes completed now c = r at hrun
    obtain ⟨r, c'⟩ := r
    cases r with
    | ok task =>
      cases task with
      | none =>
        obtain ⟨-, hdb⟩ := hrun
        exact hdb ▸ h
      | some task => exact h.closed hrun
    | error e => exact hrun ▸ h

/-- With `BEGIN` and the query answered, a pending task is returned. -/
theorem create_pending {env : Env} {opts : CreateOpts} {profile : Option Profile}
    {now : DateTime} {c : Conn Store τ} {row : ℤ × TaskColumns}
    (hbegin : (c.replies 0).error = none) (hquery : (c.replies 1).error = none)
    (hrow : pendingFor env c.db opts profile = some row) :
    create env opts profile now c = (.ok (scanTask row), c.next.next) := by
  have hbody : createTx env opts profile now c.next =
      (.error (.existing (scanTask row)), c.next.next) := by
    unfold createTx
    rw [bind_run_ok (mapError_query_run_ok (c := c.next) hquery)]
    rw [show pendingFor env c.next.db opts profile = some row from hrow]
    rfl
  have htx : transaction .failed (createTx env opts profile now) c =
      (.error (.existing (scanTask row)), c.next.next) := by
    unfold transaction
    rw [query_run, hbegin]
    dsimp only
    rw [hbody]
    rfl
  have hattempt : (attempt (transaction .failed (createTx env opts profile now)) :
      Db Store τ String _) c = (.ok (.error (.existing (scanTask row))), c.next.next) := by
    rw [attempt, htx]
  unfold create
  rw [bind_run_ok hattempt]
  rfl

/-- In every run of `create` and `complete`, with any statements and commits failing: the queue has
no duplicates and matches the event log; a pending task is returned and nothing is written; a call
that fails leaves the store as it was. -/
theorem queue_matched {db₀ db : Store} (h₀ : Matched db₀)
    (hrun : Run.Reaches (QueueStep τ) db₀ db) :
    Matched db ∧
    (∀ env opts profile now (c : Conn Store τ), c.db = db →
      (∀ row, pendingFor env db opts profile = some row →
        (create env opts profile now c).2.db = db ∧
        ((c.replies 0).error = none → (c.replies 1).error = none →
          (create env opts profile now c).1 = .ok (scanTask row))) ∧
      ∀ e, (create env opts profile now c).1 = .error e →
        (create env opts profile now c).2.db = db) ∧
    ∀ arch taskId notes completed now (c : Conn Store τ), c.db = db →
      ∀ e, (complete arch taskId notes completed now c).1 = .error e →
        (complete arch taskId notes completed now c).2.db = db := by
  refine ⟨Run.invariant matched_step hrun h₀, ?_, ?_⟩
  · rintro env opts profile now c rfl
    have hspec := (create_returns (A := AnyReply) env opts profile now c.db c.trace).run c
      ⟨rfl, rfl⟩
    refine ⟨fun row hrow => ⟨?_, fun hbegin hquery => ?_⟩, fun e he => ?_⟩
    · generalize create env opts profile now c = r at hspec
      obtain ⟨r, c'⟩ := r
      cases r with
      | ok task =>
        obtain ⟨-, ⟨-, -, -, hdb⟩ | ⟨hnone, -⟩⟩ := hspec
        · exact hdb
        · rw [hrow] at hnone
          cases hnone
      | error e => exact hspec.2.1
    · rw [create_pending hbegin hquery hrow]
    · rw [he] at hspec
      exact hspec.2.1
  · rintro arch taskId notes completed now c rfl e he
    have hspec := (complete_returns (A := AnyReply) arch taskId notes completed now c.db
      c.trace).run c ⟨rfl, rfl⟩
    rw [he] at hspec
    exact hspec

/-- A store with one request and no task. -/
def oneRequest : Conn Store Unit where
  db := { Store.fresh with requests := .insert .empty ⟨"acme", "email", "", "", "", "", ""⟩ }
  trace := []
  replies := fun _ => .plain

def plainEnv : Env where
  arch := .x86_64
  hashProfile := fun _ => ""
  redactPatterns := id
  dataDir := some "/data"
  home := none
  ensureTasksDir := fun _ => .ok ()
  writePrivate := fun _ _ => true

/-- A task for the request. -/
def formTask : CreateOpts := { requestId := some 1, brokerId := "acme", formUrl := "https://acme" }

def createdOnce : Conn Store Unit := (create plainEnv formTask none epoch oneRequest).2

def createdTwice : Conn Store Unit := (create plainEnv formTask none epoch createdOnce).2

/-- The same task twice: one row, one event. -/
theorem queue_matched_twice :
    (createdTwice.db.tasks.rows.map Prod.fst = [1] ∧
      createdTwice.db.events.rows.map (namedTask ·.2) = [some 1]) ∧ Matched createdTwice.db := by
  refine ⟨by decide, ?_⟩
  have hempty : Matched oneRequest.db :=
    matched_of_empty rfl (fun event hevent => nomatch hevent)
  have hfirst : QueueStep Unit oneRequest.db createdOnce.db := .create ..
  have hsecond : QueueStep Unit createdOnce.db createdTwice.db := .create ..
  exact (queue_matched hempty ((Relation.ReflTransGen.single hfirst).tail hsecond)).1

end EraseMe.Manualtasks
