import EraseMe.Storage.Fold

/-!
# What the writers of the event store do

One triple for each writer, from a known store: what a success writes, and that a failure writes
nothing.  A failure means that a statement failed, or that the event may not be appended
(`Appendable`).
-/

namespace EraseMe.Storage

open Chrono Json Sqlite

variable {τ : Type} {A : Reply → Prop}

/-- The store with an event row appended. -/
def Store.withEvent (db : Store) (row : EventColumns) : Store :=
  { db with events := db.events.insert row }

/-- The store with the state of a request rebuilt. -/
def Store.projected (db : Store) (arch : TargetArch) (requestId : ℤ) (now : DateTime) : Store :=
  { db with
    state := Function.update db.state requestId
      (some (stateColumns (foldEvents arch requestId (db.replayed requestId)) now)) }

/-- The store with a request row appended. -/
def Store.withRequest (db : Store) (columns : RequestColumns) : Store :=
  { db with requests := db.requests.insert columns }

/-- The event is of the catalogue, its source is known and its request exists. -/
structure Appendable (db : Store) (requestId : ℤ) (eventType : EventType) (source : Source) :
    Prop where
  eventType_known : ∀ v, eventType ≠ .unknown v
  source_known : ∀ v, source ≠ .unknown v
  request_exists : (db.requests.find requestId).isSome

@[simp] theorem withEvent_requests (db : Store) (row : EventColumns) :
    (db.withEvent row).requests = db.requests := rfl

@[simp] theorem withEvent_state (db : Store) (row : EventColumns) :
    (db.withEvent row).state = db.state := rfl

@[simp] theorem withEvent_tasks (db : Store) (row : EventColumns) :
    (db.withEvent row).tasks = db.tasks := rfl

@[simp] theorem withEvent_events (db : Store) (row : EventColumns) :
    (db.withEvent row).events = db.events.insert row := rfl

section Projected

variable (db : Store) (arch : TargetArch) (requestId : ℤ) (now : DateTime)

@[simp] theorem projected_requests : (db.projected arch requestId now).requests = db.requests := rfl

@[simp] theorem projected_events : (db.projected arch requestId now).events = db.events := rfl

@[simp] theorem projected_tasks : (db.projected arch requestId now).tasks = db.tasks := rfl

@[simp] theorem projected_replayed (id : ℤ) :
    (db.projected arch requestId now).replayed id = db.replayed id := rfl

theorem projected_state_self : (db.projected arch requestId now).state requestId =
    some (stateColumns (foldEvents arch requestId (db.replayed requestId)) now) :=
  Function.update_self _ _ _

theorem projected_state_of_ne {id : ℤ} (h : id ≠ requestId) :
    (db.projected arch requestId now).state id = db.state id :=
  Function.update_of_ne h _ _

end Projected

/-! ### Triples -/

theorem validateAppend_eq_ok {eventType : EventType} {source : Source} :
    validateAppend eventType source = .ok () ↔
      (∀ v, eventType ≠ .unknown v) ∧ ∀ v, source ≠ .unknown v := by
  unfold validateAppend
  cases eventType with
  | unknown value => simp
  | _ => cases source <;> simp

theorem appendEventTx_spec (db₀ : Store) (tr₀ : List τ) (requestId : ℤ) (eventType : EventType)
    (payload : Map) (source : Source) (occurredAt : DateTime) :
    Triple A (fun db tr => db = db₀ ∧ tr = tr₀)
      (appendEventTx requestId eventType payload source occurredAt) fun r db tr =>
        tr = tr₀ ∧ match r with
          | .ok id => Appendable db₀ requestId eventType source ∧ id = db₀.events.seq + 1 ∧
              ∃ recordedAt, db = db₀.withEvent
                (eventColumns requestId eventType payload source occurredAt recordedAt)
          | .error _ => db = db₀ ∧
              (CanFail A ∨ ¬ Appendable db₀ requestId eventType source) := by
  unfold appendEventTx
  cases hv : validateAppend eventType source with
  | error e =>
    refine Triple.fail fun db tr h => ⟨h.2, h.1, Or.inr fun hap => ?_⟩
    rw [validateAppend_eq_ok.2 ⟨hap.eventType_known, hap.source_known⟩] at hv
    cases hv
  | ok u =>
    obtain ⟨ht, hs⟩ := validateAppend_eq_ok.1 hv
    refine Triple.mapError (Triple.statement ?_ ?_)
    · rintro r db tr - ⟨rfl, rfl⟩ - a db' hf
      cases hreq : db.requests.find requestId with
      | none => rw [hreq] at hf; cases hf
      | some columns =>
        rw [hreq] at hf
        cases hf
        exact ⟨rfl, ⟨ht, hs, by rw [hreq]; rfl⟩, rfl, r.now, rfl⟩
    · rintro r db tr e hr ⟨rfl, rfl⟩ h
      refine ⟨rfl, rfl, ?_⟩
      rcases h with h | ⟨-, h⟩
      · exact Or.inl ⟨r, e, hr, h⟩
      · refine Or.inr fun hap => ?_
        obtain ⟨columns, hreq⟩ := Option.isSome_iff_exists.1 hap.request_exists
        rw [hreq] at h
        cases h

theorem loadEvents_spec (db₀ : Store) (tr₀ : List τ) (requestId : ℤ) :
    Triple A (fun db tr => db = db₀ ∧ tr = tr₀) (loadEvents requestId) fun r db tr =>
      db = db₀ ∧ tr = tr₀ ∧ match r with
        | .ok events => events = db₀.replayed requestId
        | .error _ => CanFail A := by
  refine Triple.mapError (Triple.query ?_ ?_)
  · rintro r db tr - ⟨rfl, rfl⟩
    exact ⟨rfl, rfl, rfl⟩
  · rintro r db tr e hr ⟨rfl, rfl⟩ h
    exact ⟨rfl, rfl, r, e, hr, h⟩

/-- The write of a folded state. -/
theorem writeState_spec (arch : TargetArch) (db₀ : Store) (tr₀ : List τ) (requestId : ℤ)
    (events : List EventRecord) :
    Triple A (fun db tr => db = db₀ ∧ tr = tr₀ ∧ events = db₀.replayed requestId)
      (Db.mapError (statement fun reply (db : Store) =>
        match db.requests.find (foldEvents arch requestId events).requestId with
        | none => .error foreignKeyFailed
        | some _ => .ok ((), { db with
            state := Function.update db.state (foldEvents arch requestId events).requestId
              (some (stateColumns (foldEvents arch requestId events) reply.now)) }))
        ProjectionError.database) fun r db tr =>
      tr = tr₀ ∧ match r with
        | .ok _ => (db₀.requests.find requestId).isSome ∧
            foldEvents arch requestId events =
              foldEvents arch requestId (db₀.replayed requestId) ∧
            ∃ now, db = db₀.projected arch requestId now
        | .error _ => db = db₀ ∧ (CanFail A ∨ db₀.requests.find requestId = none) := by
  refine Triple.mapError (Triple.statement ?_ ?_)
  · rintro r db tr - ⟨rfl, rfl, rfl⟩ - a db' hf
    rw [foldEvents_requestId] at hf
    cases hreq : db.requests.find requestId with
    | none => rw [hreq] at hf; cases hf
    | some columns =>
      rw [hreq] at hf
      cases hf
      exact ⟨rfl, rfl, rfl, r.now, rfl⟩
  · rintro r db tr e hr ⟨rfl, rfl, rfl⟩ h
    refine ⟨rfl, rfl, ?_⟩
    rcases h with h | ⟨-, h⟩
    · exact Or.inl ⟨r, e, hr, h⟩
    · rw [foldEvents_requestId] at h
      cases hreq : db.requests.find requestId with
      | none => exact Or.inr rfl
      | some columns => rw [hreq] at h; cases h

theorem upsertStateTx_spec (arch : TargetArch) (db₀ : Store) (tr₀ : List τ) (requestId : ℤ) :
    Triple A (fun db tr => db = db₀ ∧ tr = tr₀) (upsertStateTx arch requestId) fun r db tr =>
      tr = tr₀ ∧ match r with
        | .ok state => (db₀.requests.find requestId).isSome ∧
            state = foldEvents arch requestId (db₀.replayed requestId) ∧
            ∃ now, db = db₀.projected arch requestId now
        | .error _ => db = db₀ ∧ (CanFail A ∨ db₀.requests.find requestId = none) := by
  unfold upsertStateTx
  refine Triple.bind (loadEvents_spec db₀ tr₀ requestId) (fun events => ?_) ?_
  · refine Triple.bind (writeState_spec arch db₀ tr₀ requestId events)
      (fun _ => Triple.pure fun db tr h => ⟨h.1, h.2⟩) ?_
    rintro e db tr h
    exact h
  · rintro e db tr ⟨hdb, htr, hfail⟩
    exact ⟨htr, hdb, Or.inl hfail⟩

/-- A success appends the event and rebuilds the state over it. -/
theorem appendAndProjectTx_spec (arch : TargetArch) (db₀ : Store) (tr₀ : List τ) (requestId : ℤ)
    (eventType : EventType) (payload : Map) (source : Source) (occurredAt : DateTime) :
    Triple A (fun db tr => db = db₀ ∧ tr = tr₀)
      (appendAndProjectTx arch requestId eventType payload source occurredAt) fun r db tr =>
        tr = tr₀ ∧ match r with
          | .ok _ => Appendable db₀ requestId eventType source ∧ ∃ recordedAt now,
              db = (db₀.withEvent
                (eventColumns requestId eventType payload source occurredAt recordedAt)).projected
                  arch requestId now
          | .error _ => CanFail A ∨ ¬ Appendable db₀ requestId eventType source := by
  unfold appendAndProjectTx
  refine Triple.bind (appendEventTx_spec db₀ tr₀ requestId eventType payload source occurredAt)
    (fun id => ?_) (fun e db tr h => ⟨h.1, h.2.2⟩)
  refine Triple.ghost fun db₁ tr₁ h => ?_
  obtain ⟨rfl, hap, -, recordedAt, rfl⟩ := h
  refine Triple.bind (upsertStateTx_spec arch _ _ requestId) (fun state => ?_) ?_
  · refine Triple.pure fun db tr h => ?_
    obtain ⟨htr, -, -, now, hdb⟩ := h
    exact ⟨htr, hap, recordedAt, now, hdb⟩
  · rintro e db tr ⟨htr, -, hfail⟩
    refine ⟨htr, ?_⟩
    rcases hfail with hfail | hfail
    · exact Or.inl hfail
    · have := hap.request_exists
      rw [withEvent_requests] at hfail
      rw [hfail] at this
      cases this

theorem appendAndProject_spec (arch : TargetArch) (db₀ : Store) (tr₀ : List τ) (requestId : ℤ)
    (eventType : EventType) (payload : Map) (source : Source) (occurredAt : DateTime) :
    Triple A (fun db tr => db = db₀ ∧ tr = tr₀)
      (appendAndProject arch requestId eventType payload source occurredAt) fun r db tr =>
        tr = tr₀ ∧ match r with
          | .ok _ => Appendable db₀ requestId eventType source ∧ ∃ recordedAt now,
              db = (db₀.withEvent
                (eventColumns requestId eventType payload source occurredAt recordedAt)).projected
                  arch requestId now
          | .error _ => db = db₀ ∧
              (CanFail A ∨ ¬ Appendable db₀ requestId eventType source) := by
  refine Triple.transaction (fun db₁ tr₁ h => ?_) (fun r e db tr hr he h => ?_)
  · obtain ⟨rfl, rfl⟩ := h
    refine (appendAndProjectTx_spec arch db₁ tr₁ requestId eventType payload source
      occurredAt).conseq (fun db tr h => h) (fun r db tr h => ?_)
    cases r with
    | ok a => exact ⟨h, fun r e hr he => ⟨h.1, rfl, Or.inl ⟨r, e, hr, he⟩⟩⟩
    | error e => exact ⟨h.1, rfl, h.2⟩
  · exact ⟨h.2, h.1, Or.inl ⟨r, e, hr, he⟩⟩

/-- An event of the program itself, appended and projected. -/
def Recorded (arch : TargetArch) (requestId : ℤ) (eventType : EventType) (payload : Map)
    (occurredAt : DateTime) (db₀ db : Store) : Prop :=
  ∃ recordedAt now, db = (db₀.withEvent
    (eventColumns requestId eventType payload .system occurredAt recordedAt)).projected
      arch requestId now

/-- On an existing request the append fails only with a statement. -/
theorem appendAndProject_recorded (arch : TargetArch) (db₀ : Store) (tr₀ : List τ)
    {requestId : ℤ} {eventType : EventType} (payload : Map) (occurredAt : DateTime)
    (hreq : (db₀.requests.find requestId).isSome) (ht : ∀ v, eventType ≠ .unknown v) :
    Triple A (fun db tr => db = db₀ ∧ tr = tr₀)
      (appendAndProject arch requestId eventType payload .system occurredAt) fun r db tr =>
        tr = tr₀ ∧ match r with
          | .ok _ => Recorded arch requestId eventType payload occurredAt db₀ db
          | .error _ => db = db₀ ∧ CanFail A := by
  refine (appendAndProject_spec arch db₀ tr₀ requestId eventType payload .system
    occurredAt).conseq (fun db tr h => h) (fun r db tr h => ?_)
  cases r with
  | ok a => exact ⟨h.1, h.2.2⟩
  | error e =>
    obtain ⟨htr, hdb, hfail | hap⟩ := h
    · exact ⟨htr, hdb, hfail⟩
    · exact absurd ⟨ht, fun v => by simp, hreq⟩ hap

theorem appendEvent_spec (db₀ : Store) (tr₀ : List τ) (requestId : ℤ) (eventType : EventType)
    (payload : Map) (source : Source) (occurredAt : DateTime) :
    Triple A (fun db tr => db = db₀ ∧ tr = tr₀)
      (appendEvent requestId eventType payload source occurredAt) fun r db tr =>
        tr = tr₀ ∧ match r with
          | .ok _ => Appendable db₀ requestId eventType source ∧ ∃ recordedAt,
              db = db₀.withEvent
                (eventColumns requestId eventType payload source occurredAt recordedAt)
          | .error _ => db = db₀ := by
  refine Triple.transaction (fun db₁ tr₁ h => ?_) (fun r e db tr hr he h => ⟨h.2, h.1⟩)
  obtain ⟨rfl, rfl⟩ := h
  refine (appendEventTx_spec db₁ tr₁ requestId eventType payload source occurredAt).conseq
    (fun db tr h => h) (fun r db tr h => ?_)
  cases r with
  | ok a =>
    obtain ⟨htr, hap, -, hdb⟩ := h
    exact ⟨⟨htr, hap, hdb⟩, fun r e hr he => ⟨htr, rfl⟩⟩
  | error e => exact ⟨h.1, rfl⟩

theorem upsertState_spec (arch : TargetArch) (db₀ : Store) (tr₀ : List τ) (requestId : ℤ) :
    Triple A (fun db tr => db = db₀ ∧ tr = tr₀) (upsertState arch requestId) fun r db tr =>
      tr = tr₀ ∧ match r with
        | .ok _ => ∃ now, db = db₀.projected arch requestId now
        | .error _ => db = db₀ ∧ (CanFail A ∨ db₀.requests.find requestId = none) := by
  refine Triple.transaction (fun db₁ tr₁ h => ?_) (fun r e db tr hr he h => ?_)
  · obtain ⟨rfl, rfl⟩ := h
    refine (upsertStateTx_spec arch db₁ tr₁ requestId).conseq (fun db tr h => h)
      (fun r db tr h => ?_)
    cases r with
    | ok a =>
      obtain ⟨htr, -, -, hdb⟩ := h
      exact ⟨⟨htr, hdb⟩, fun r e hr he => ⟨htr, rfl, Or.inl ⟨r, e, hr, he⟩⟩⟩
    | error e => exact ⟨h.1, rfl, h.2.2⟩
  · exact ⟨h.2, h.1, Or.inl ⟨r, e, hr, he⟩⟩

theorem createRemovalRequest_spec (db₀ : Store) (tr₀ : List τ) (brokerId channel campaignId
    jurisdiction templateId hash : String) :
    Triple A (fun db tr => db = db₀ ∧ tr = tr₀)
      (createRemovalRequest brokerId channel campaignId jurisdiction templateId hash)
      fun r db tr => tr = tr₀ ∧ match r with
        | .ok id => id = db₀.requests.seq + 1 ∧ ∃ createdAt, db = db₀.withRequest
            ⟨brokerId, if channel = "" then "email" else channel, campaignId, createdAt,
              jurisdiction, templateId, hash⟩
        | .error _ => db = db₀ ∧ CanFail A := by
  unfold createRemovalRequest
  refine Triple.statement ?_ ?_
  · rintro r db tr - ⟨rfl, rfl⟩ - a db' hf
    cases hf
    exact ⟨rfl, rfl, _, rfl⟩
  · rintro r db tr e hr ⟨rfl, rfl⟩ h
    rcases h with h | ⟨-, h⟩
    · exact ⟨rfl, rfl, r, e, hr, h⟩
    · cases h

end EraseMe.Storage
