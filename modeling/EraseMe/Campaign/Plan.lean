import EraseMe.Campaign.Execute

/-!
# What planning does

Planning one broker appends a request row and, as a second write, its `PLANNED` event; a failed
statement may leave the row without the event.  `planCampaign_rule` lifts an invariant of the
single brokers to the plan.
-/

namespace EraseMe.Campaign

open Chrono Identity Json Registry Sqlite Storage

variable {τ : Type} {A : Reply → Prop}

/-- The request row of a planned broker. -/
def plannedColumns (identityHash : String) (opts : PlanOpts)
    (selected : Broker × SelectedChannel) (createdAt : String) : RequestColumns :=
  ⟨selected.1.id, selected.2.kind, opts.campaignId, createdAt,
    resolveJurisdiction selected.1 opts.jurisdiction, resolveTemplate selected.2, identityHash⟩

/-- A request row was appended, and its `PLANNED` event recorded. -/
def Planned (env : Env) (identityHash : String) (opts : PlanOpts) (now : DateTime)
    (selected : Broker × SelectedChannel) (db₀ db : Store) : Prop :=
  ∃ createdAt, Recorded env.arch (db₀.requests.seq + 1) .planned
    (plannedPayload selected.1 selected.2) now
    (db₀.withRequest (plannedColumns identityHash opts selected createdAt)) db

theorem kind_ne_empty (channel : SelectedChannel) : channel.kind ≠ "" := by
  cases channel with
  | email endpoint template locale days => simp [SelectedChannel.kind]
  | webForm url => simp [SelectedChannel.kind]

theorem planBroker_spec (env : Env) (identityHash : String) (opts : PlanOpts) (now : DateTime)
    (selected : Broker × SelectedChannel) (db₀ : Store) (tr₀ : List τ) :
    Triple A (fun db tr => db = db₀ ∧ tr = tr₀) (planBroker env identityHash opts now selected)
      fun r db tr => tr = tr₀ ∧ match r with
        | .ok request => request.requestId = db₀.requests.seq + 1 ∧
            request.brokerId = selected.1.id ∧
            Planned env identityHash opts now selected db₀ db
        | .error _ => CanFail A ∧ (db = db₀ ∨ ∃ createdAt,
            db = db₀.withRequest (plannedColumns identityHash opts selected createdAt)) := by
  obtain ⟨broker, channel⟩ := selected
  unfold planBroker
  refine Triple.bind (R := fun r db tr => tr = tr₀ ∧ match r with
      | .ok id => id = db₀.requests.seq + 1 ∧ ∃ createdAt,
          db = db₀.withRequest (plannedColumns identityHash opts (broker, channel) createdAt)
      | .error _ => CanFail A ∧ db = db₀)
    (Triple.mapError ((createRemovalRequest_spec db₀ tr₀ _ _ _ _ _ _).conseq
      (fun db tr h => h) fun r db tr h => ⟨h.1, ?_⟩)) (fun id => ?_)
    (fun e db tr h => ⟨h.1, h.2.1, Or.inl h.2.2⟩)
  · cases r with
    | ok id =>
      obtain ⟨-, hid, createdAt, hdb⟩ := h
      rw [if_neg (kind_ne_empty channel)] at hdb
      exact ⟨hid, createdAt, hdb⟩
    | error e => exact ⟨h.2.2, h.2.1⟩
  · refine Triple.ghost fun db₁ tr₁ h => ?_
    obtain ⟨rfl, rfl, createdAt, rfl⟩ := h
    have hex : ((db₀.withRequest
        (plannedColumns identityHash opts (broker, channel) createdAt)).requests.find
          (db₀.requests.seq + 1)).isSome := by
      rw [Store.withRequest, Table.find_insert, if_pos rfl]
      rfl
    refine Triple.bind (R := fun r db tr => tr = tr₁ ∧ match r with
        | .ok _ => Planned env identityHash opts now (broker, channel) db₀ db
        | .error _ => CanFail A ∧ db = db₀.withRequest
            (plannedColumns identityHash opts (broker, channel) createdAt))
      (Triple.mapError ((appendAndProject_recorded env.arch _ tr₁ _ now hex (by simp)).conseq
        (fun db tr h => h) fun r db tr h => ⟨h.1, ?_⟩))
      (fun a => Triple.pure fun db tr h => ⟨h.1, rfl, rfl, h.2⟩)
      (fun e db tr h => ⟨h.1, h.2.1, Or.inr ⟨createdAt, h.2.2⟩⟩)
    cases r with
    | ok a => exact ⟨createdAt, h.2⟩
    | error e => exact ⟨h.2.2, h.2.1⟩

/-- The loop over the selected brokers.  `I` holds of the brokers done, their requests and the store;
`E` holds when the plan stops, between two brokers or with the row of a request only. -/
theorem planCampaign_rule (env : Env) (brokers : List Broker) (identityHash : String)
    (opts : PlanOpts) (now : DateTime)
    (I : List (Broker × SelectedChannel) → List PlanRequest → Store → List τ → Prop)
    (E : Store → List τ → Prop)
    (hcampaign : ∀ db tr campaigns, I [] [] db tr → I [] [] { db with campaigns := campaigns } tr)
    (hstep : ∀ pre done selected request db₀ tr db, selected ∈ selectedBrokers brokers opts →
      I pre done db₀ tr → request.requestId = db₀.requests.seq + 1 →
      request.brokerId = selected.1.id → Planned env identityHash opts now selected db₀ db →
      I (pre ++ [selected]) (done ++ [request]) db tr)
    (hstop : ∀ pre done db tr, CanFail A → I pre done db tr → E db tr)
    (horphan : ∀ pre done selected db tr createdAt, CanFail A →
      selected ∈ selectedBrokers brokers opts → I pre done db tr →
      E (db.withRequest (plannedColumns identityHash opts selected createdAt)) tr) :
    Triple A (I [] []) (planCampaign env brokers identityHash opts now) fun r db tr =>
      match r with
      | .ok result => I (selectedBrokers brokers opts) result.requests db tr
      | .error _ => E db tr := by
  unfold planCampaign createCampaign
  refine Triple.bind (R := fun r db tr => match r with
      | .ok _ => I [] [] db tr
      | .error _ => E db tr)
    (Triple.mapError (Triple.statement ?_ ?_)) (fun created => ?_) (fun e db tr h => h)
  · intro r db tr hr hI herr a db' hf
    by_cases hc : (db.campaigns.any fun c => c.id = opts.campaignId) = true
    · rw [if_pos hc] at hf
      cases hf
      exact hI
    · rw [if_neg hc] at hf
      cases hf
      exact hcampaign db tr _ hI
  · intro r db tr e hr hI h
    rcases h with h | ⟨-, h⟩
    · exact hstop [] [] db tr ⟨r, e, hr, h⟩ hI
    · by_cases hc : (db.campaigns.any fun c => c.id = opts.campaignId) = true
      · rw [if_pos hc] at h
        cases h
      · rw [if_neg hc] at h
        cases h
  · refine Triple.bind (Triple.forEach I (fun _ => E) fun pre selected post done hsplit => ?_)
      (fun requests => Triple.pure fun db tr h => h) (fun e db tr h => h)
    have hmem : selected ∈ selectedBrokers brokers opts := by
      rw [hsplit]
      simp
    refine Triple.ghost fun db₀ tr₀ hI => ?_
    refine (planBroker_spec env identityHash opts now selected db₀ tr₀).conseq
      (fun db tr h => h) fun r db tr h => ?_
    cases r with
    | ok request =>
      obtain ⟨rfl, hid, hbroker, hplanned⟩ := h
      exact hstep pre done selected request db₀ tr db hmem hI hid hbroker hplanned
    | error e =>
      obtain ⟨rfl, hfail, rfl | ⟨createdAt, rfl⟩⟩ := h
      · exact hstop pre done db tr hfail hI
      · exact horphan pre done selected db₀ tr createdAt hfail hmem hI

/-- An invariant of the requests made so far holds after a plan that succeeds. -/
theorem planCampaign_spec (env : Env) (brokers : List Broker) (identityHash : String)
    (opts : PlanOpts) (now : DateTime) (I : List PlanRequest → Store → List τ → Prop)
    (hcampaign : ∀ db tr campaigns, I [] db tr → I [] { db with campaigns := campaigns } tr)
    (hstep : ∀ done selected request db₀ tr db, selected ∈ selectedBrokers brokers opts →
      I done db₀ tr → request.requestId = db₀.requests.seq + 1 →
      request.brokerId = selected.1.id →
      Planned env identityHash opts now selected db₀ db → I (done ++ [request]) db tr) :
    Triple A (I []) (planCampaign env brokers identityHash opts now) fun r db tr =>
      match r with
      | .ok result => I result.requests db tr
      | .error _ => CanFail A :=
  planCampaign_rule env brokers identityHash opts now (fun _ => I) (fun _ _ => CanFail A) hcampaign
    (fun _ => hstep) (fun _ _ _ _ hfail _ => hfail) fun _ _ _ _ _ _ hfail _ _ => hfail

/-- What every write of a plan keeps holds after it, also when it fails. -/
theorem planCampaign_keeps (env : Env) (brokers : List Broker) (identityHash : String)
    (opts : PlanOpts) (now : DateTime) (I : Store → Prop)
    (hcampaign : ∀ db campaigns, I db → I { db with campaigns := campaigns })
    (hrequest : ∀ selected db createdAt, selected ∈ selectedBrokers brokers opts → I db →
      I (db.withRequest (plannedColumns identityHash opts selected createdAt)))
    (hplanned : ∀ selected db₀ db, selected ∈ selectedBrokers brokers opts → I db₀ →
      Planned env identityHash opts now selected db₀ db → I db) :
    Triple A (fun db (_ : List τ) => I db) (planCampaign env brokers identityHash opts now)
      fun _ db _ => I db := by
  refine (planCampaign_rule env brokers identityHash opts now (fun _ _ db _ => I db)
    (fun db _ => I db) (fun db _ campaigns h => hcampaign db campaigns h)
    (fun _ _ selected _ db₀ _ db hsel h _ _ hp => hplanned selected db₀ db hsel h hp)
    (fun _ _ _ _ _ h => h)
    (fun _ _ selected db _ createdAt _ hsel h => hrequest selected db createdAt hsel h)).conseq
    (fun _ _ h => h) fun r db tr h => ?_
  cases r with
  | ok result => exact h
  | error e => exact h

end EraseMe.Campaign
