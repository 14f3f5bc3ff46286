import EraseMe.Campaign.Fields
import EraseMe.Registry.Conformance

/-!
# Disabled channels

A channel of the registry may be switched off.  Planning takes the first channel of a broker without
a look at the flag; the preview of a web form takes the first form that is not switched off.  A plan
respects the flags exactly when no broker it is for begins its list with a disabled channel
(`plan_respects_iff`).
-/

namespace EraseMe.Campaign

open Chrono Identity Json Registry Sqlite Storage

/-! ### Channels -/

/-- What a channel carries beside its address. -/
def channelOptions : Channel → ChannelOptions
  | .email _ options => options
  | .webForm _ _ options => options

/-- The channel is switched off. -/
def Disabled (channel : Channel) : Prop := (channelOptions channel).disabled = some true

instance (channel : Channel) : Decidable (Disabled channel) :=
  inferInstanceAs (Decidable (_ = _))

/-- The channel planning takes for a broker. -/
def takenChannel (broker : Broker) : Option Channel := broker.optOut.head?

/-- The brokers the registry accepts: each passes its checks, no two have one id. -/
structure Accepted (brokers : List Broker) : Prop where
  nodup : (brokers.map Broker.id).Nodup
  valid : ∀ broker ∈ brokers, validateBroker broker.id broker = .ok broker

/-- The brokers a plan is for: those the filter keeps, up to the limit. -/
def inPlan (brokers : List Broker) (opts : PlanOpts) : List Broker :=
  let filtered := filterBrokers brokers opts.filter
  if opts.maxBrokers > 0 then filtered.take opts.maxBrokers.toNat else filtered

/-- Every new request has an enabled channel, and its form is the one previewed. -/
structure Respected (brokers : List Broker) (db₀ db : Store) : Prop where
  /-- The channel taken for a new request is not disabled. -/
  enabled : ∀ row ∈ db.requests.rows, db₀.requests.seq < row.1 →
    ∀ broker ∈ brokers, broker.id = row.2.brokerId →
      ∀ channel, takenChannel broker = some channel → ¬ Disabled channel
  /-- A broker without an enabled channel gets no request. -/
  noneLeft : ∀ broker ∈ brokers, (∀ channel ∈ broker.optOut, Disabled channel) →
    ∀ row ∈ db.requests.rows, db₀.requests.seq < row.1 → row.2.brokerId ≠ broker.id
  /-- The form previewed for a new request is the one of its `PLANNED` event. -/
  sameForm : ∀ row ∈ db.requests.rows, db₀.requests.seq < row.1 → row.2.channel = "web_form" →
    ∀ event ∈ db.events.rows, db₀.events.seq < event.1 → event.2.requestId = row.1 →
      ∃ url, ∃ payload : Map, event.2.payloadJson = .document (.object payload) ∧
        payload.get "endpoint" = some (.string url) ∧
        ∀ dryRun, ∃ preview, webFormPreview brokers row.2.brokerId dryRun = .ok preview ∧
          preview.get "url" = some (.string url)

variable {brokers : List Broker} {opts : PlanOpts} {env : Env} {identityHash : String}
  {now : DateTime} {db₀ db : Store}

/-! ### Which brokers and channels a plan takes -/

theorem selectChannel_isSome {broker : Broker} (h : broker.optOut ≠ []) :
    ∃ selected, selectChannel broker = some selected := by
  cases hchannels : broker.optOut with
  | nil => exact absurd hchannels h
  | cons channel channels =>
    cases channel with
    | email endpoint options => exact ⟨_, by rw [selectChannel, hchannels]⟩
    | webForm url formSpec options => exact ⟨_, by rw [selectChannel, hchannels]⟩

theorem optOut_ne_nil {broker : Broker} (h : validateBroker broker.id broker = .ok broker) :
    broker.optOut ≠ [] :=
  (validateBroker_ok h).2.optOut

/-- A web form is selected only when it is the first channel. -/
theorem head_of_webForm {broker : Broker} {selected : SelectedChannel}
    (h : selectChannel broker = some selected) (hkind : selected.kind = "web_form") :
    ∃ formSpec options,
      takenChannel broker = some (.webForm selected.endpoint formSpec options) := by
  unfold selectChannel at h
  unfold takenChannel
  cases hchannels : broker.optOut with
  | nil => rw [hchannels] at h; cases h
  | cons channel channels =>
    rw [hchannels] at h
    cases channel with
    | email endpoint options =>
      cases h
      exact absurd hkind (by simp [SelectedChannel.kind])
    | webForm url formSpec options =>
      cases h
      exact ⟨formSpec, options, rfl⟩

/-- Every broker the registry accepts has a channel, so a plan is for all the filter keeps. -/
theorem map_selectedBrokers (h : Accepted brokers) :
    (selectedBrokers brokers opts).map Prod.fst = inPlan brokers opts := by
  have hmatched : (matchedBrokers brokers opts).map Prod.fst =
      filterBrokers brokers opts.filter := by
    have hall : ∀ broker ∈ filterBrokers brokers opts.filter,
        ∃ selected, selectChannel broker = some selected := fun broker hbroker =>
      selectChannel_isSome (optOut_ne_nil (h.valid broker (List.mem_filter.1 hbroker).1))
    unfold matchedBrokers
    generalize filterBrokers brokers opts.filter = filtered at hall
    induction filtered with
    | nil => rfl
    | cons broker rest ih =>
      obtain ⟨selected, hselected⟩ := hall broker (List.mem_cons_self ..)
      rw [List.filterMap_cons_some (by rw [hselected]; rfl), List.map_cons,
        ih fun b hb => hall b (List.mem_cons_of_mem _ hb)]
  unfold selectedBrokers inPlan
  rw [← hmatched]
  by_cases hlimit : opts.maxBrokers > 0
  · rw [if_pos hlimit]
    by_cases hlong : ((matchedBrokers brokers opts).length : ℤ) > opts.maxBrokers
    · rw [if_pos ⟨hlimit, hlong⟩, List.map_take]
    · rw [if_neg fun hc => hlong hc.2, List.take_of_length_le (by rw [List.length_map]; omega)]
  · rw [if_neg hlimit, if_neg fun hc => hlimit hc.1]

theorem mem_of_mem_selectedBrokers (hvalid : Accepted brokers)
    {selected : Broker × SelectedChannel} (h : selected ∈ selectedBrokers brokers opts) :
    selected.1 ∈ brokers := by
  have hin : selected.1 ∈ inPlan brokers opts := by
    rw [← map_selectedBrokers hvalid]
    exact List.mem_map_of_mem h
  unfold inPlan at hin
  split_ifs at hin with hlimit
  · exact (List.mem_filter.1 (List.mem_of_mem_take hin)).1
  · exact (List.mem_filter.1 hin).1

theorem eq_of_id (h : Accepted brokers) {a b : Broker} (ha : a ∈ brokers) (hb : b ∈ brokers)
    (hid : a.id = b.id) : a = b :=
  List.inj_on_of_nodup_map h.nodup ha hb hid

/-- A broker whose first channel is an enabled form is previewed with that form. -/
theorem webFormPreview_of_head (h : Accepted brokers) {broker : Broker} (hmem : broker ∈ brokers)
    {url : String} {formSpec : FormSpec} {options : ChannelOptions}
    (hhead : takenChannel broker = some (.webForm url formSpec options))
    (henabled : options.disabled ≠ some true) (dryRun : Bool) :
    ∃ preview, webFormPreview brokers broker.id dryRun = .ok preview ∧
      preview.get "url" = some (.string url) := by
  have hfind : brokers.find? (fun b => b.id = broker.id) = some broker := by
    cases hfound : brokers.find? fun b => b.id = broker.id with
    | none => exact absurd (List.find?_eq_none.1 hfound broker hmem) (by simp)
    | some b =>
      have hid : b.id = broker.id := by simpa using List.find?_some hfound
      rw [eq_of_id h (List.mem_of_find?_eq_some hfound) hmem hid]
  have hactive : activeWebForm broker = some (url, formSpec) := by
    obtain ⟨channels, hchannels⟩ := List.head?_eq_some_iff.1 hhead
    have hflag : options.disabled.getD false = false := by
      cases hd : options.disabled with
      | none => rfl
      | some flag =>
        cases flag with
        | false => rfl
        | true => exact absurd hd henabled
    unfold activeWebForm
    rw [hchannels, List.findSome?_cons]
    simp [hflag]
  unfold webFormPreview
  rw [hfind]
  simp only [hactive]
  cases dryRun with
  | true => exact ⟨_, rfl, by simp [formPreview, Map.get_cons]⟩
  | false => exact ⟨_, rfl, by simp [manualAction, Map.get_cons]⟩

/-! ### What a plan writes -/

/-- The new rows and events of a store are those of selected brokers. -/
structure Plans (brokers : List Broker) (opts : PlanOpts) (db₀ db : Store) : Prop where
  requests_le : db₀.requests.seq ≤ db.requests.seq
  /-- A new event is of a request that was created. -/
  events_le : ∀ event ∈ db.events.rows, db₀.events.seq < event.1 →
    event.2.requestId ≤ db.requests.seq
  row : ∀ row ∈ db.requests.rows, db₀.requests.seq < row.1 →
    ∃ selected ∈ selectedBrokers brokers opts,
      row.2.brokerId = selected.1.id ∧ row.2.channel = selected.2.kind ∧
        ∀ event ∈ db.events.rows, db₀.events.seq < event.1 → event.2.requestId = row.1 →
          event.2.payloadJson = payloadText (plannedPayload selected.1 selected.2)

theorem plans_refl (brokers : List Broker) (opts : PlanOpts) (db : Store) :
    Plans brokers opts db db where
  requests_le := le_rfl
  events_le := fun event hevent hnew =>
    absurd (db.events.le_seq event hevent) (by omega)
  row := fun row hrow hnew => absurd (db.requests.le_seq row hrow) (by omega)

theorem Plans.withRequest (h : Plans brokers opts db₀ db) {selected : Broker × SelectedChannel}
    (hsel : selected ∈ selectedBrokers brokers opts) (createdAt : String) :
    Plans brokers opts db₀
      (db.withRequest (plannedColumns identityHash opts selected createdAt)) where
  requests_le := by
    have := h.requests_le
    change db₀.requests.seq ≤ db.requests.seq + 1
    omega
  events_le := fun event hevent hnew => by
    have := h.events_le event hevent hnew
    change event.2.requestId ≤ db.requests.seq + 1
    omega
  row := fun row hrow hnew => by
    rcases List.mem_append.1 hrow with hrow | hrow
    · exact h.row row hrow hnew
    · rw [List.mem_singleton.1 hrow]
      refine ⟨selected, hsel, rfl, rfl, fun event hevent hold hid => ?_⟩
      have := h.events_le event hevent hold
      change event.2.requestId = db.requests.seq + 1 at hid
      omega

theorem Plans.planned (h : Plans brokers opts db₀ db) {selected : Broker × SelectedChannel}
    (hsel : selected ∈ selectedBrokers brokers opts) {db' : Store}
    (hplanned : Planned env identityHash opts now selected db db') :
    Plans brokers opts db₀ db' := by
  obtain ⟨createdAt, recordedAt, writtenAt, rfl⟩ := hplanned
  have hrequest : Plans brokers opts db₀
      (db.withRequest (plannedColumns identityHash opts selected createdAt)) :=
    h.withRequest hsel createdAt
  refine ⟨hrequest.requests_le, fun event hevent hnew => ?_, fun row hrow hnew => ?_⟩
  · rcases List.mem_append.1 hevent with hevent | hevent
    · exact hrequest.events_le event hevent hnew
    · rw [List.mem_singleton.1 hevent]
      exact le_refl _
  · -- the event is of the last row; an earlier row keeps the events it had
    rcases List.mem_append.1 hrow with hrow | hrow
    · obtain ⟨selected', hsel', hid, hkind, hevents⟩ := h.row row hrow hnew
      refine ⟨selected', hsel', hid, hkind, fun event hevent hold heq => ?_⟩
      rcases List.mem_append.1 hevent with hevent | hevent
      · exact hevents event hevent hold heq
      · rw [List.mem_singleton.1 hevent] at heq
        have hle := db.requests.le_seq row hrow
        change db.requests.seq + 1 = row.1 at heq
        omega
    · rw [List.mem_singleton.1 hrow]
      refine ⟨selected, hsel, rfl, rfl, fun event hevent hold hid => ?_⟩
      rcases List.mem_append.1 hevent with hevent | hevent
      · have := h.events_le event hevent hold
        change event.2.requestId = db.requests.seq + 1 at hid
        omega
      · rw [List.mem_singleton.1 hevent]
        rfl

/-- Also a plan that fails writes rows of selected brokers only. -/
theorem plans_planCampaign (env : Env) (brokers : List Broker) (identityHash : String)
    (opts : PlanOpts) (now : DateTime) {τ : Type} (c : Conn Store τ) :
    Plans brokers opts c.db (planCampaign env brokers identityHash opts now c).2.db :=
  (planCampaign_keeps (A := AnyReply) env brokers identityHash opts now
    (Plans brokers opts c.db) (fun _ _ h => ⟨h.requests_le, h.events_le, h.row⟩)
    (fun _ _ createdAt hsel h => h.withRequest hsel createdAt)
    fun _ _ _ hsel h hplanned => h.planned hsel hplanned).run c (plans_refl brokers opts c.db)

/-- Without a fault every broker of the plan gets a row. -/
theorem exists_row_planCampaign (env : Env) (brokers : List Broker) (identityHash : String)
    (opts : PlanOpts) (now : DateTime) {τ : Type} (c : Conn Store τ)
    (hfault : ∀ n, Faultless (c.replies n)) :
    ∀ selected ∈ selectedBrokers brokers opts,
      ∃ row ∈ (planCampaign env brokers identityHash opts now c).2.db.requests.rows,
        c.db.requests.seq < row.1 ∧ row.2.brokerId = selected.1.id := by
  have hrule := planCampaign_rule (A := Faultless) env brokers identityHash opts now
    (fun pre _ db (_ : List τ) => c.db.requests.seq ≤ db.requests.seq ∧ ∀ selected ∈ pre,
      ∃ row ∈ db.requests.rows, c.db.requests.seq < row.1 ∧ row.2.brokerId = selected.1.id)
    (fun _ _ => False) (fun db tr campaigns h => h) ?_
    (fun _ _ _ _ hfail _ => not_canFail_faultless hfail)
    (fun _ _ _ _ _ _ hfail _ _ => not_canFail_faultless hfail)
  · obtain ⟨-, hpost⟩ := hrule c hfault ⟨le_rfl, by simp⟩
    cases hrun : (planCampaign env brokers identityHash opts now c).1 with
    | ok result =>
      rw [hrun] at hpost
      exact hpost.2
    | error e =>
      rw [hrun] at hpost
      exact hpost.elim
  · rintro pre done selected request db₁ tr db hsel ⟨hle, hrows⟩ - - hplanned
    obtain ⟨createdAt, recordedAt, writtenAt, rfl⟩ := hplanned
    refine ⟨?_, fun selected' hmem => ?_⟩
    · change c.db.requests.seq ≤ db₁.requests.seq + 1
      omega
    · rcases List.mem_append.1 hmem with hmem | hmem
      · obtain ⟨row, hrow, hnew, hid⟩ := hrows selected' hmem
        exact ⟨row, List.mem_append_left _ hrow, hnew, hid⟩
      · rw [List.mem_singleton.1 hmem]
        refine ⟨_, List.mem_append_right _ (List.mem_singleton_self _), ?_, rfl⟩
        change c.db.requests.seq < db₁.requests.seq + 1
        omega

/-! ### When the flags are respected -/

theorem get_endpoint_payloadText (broker : Broker) (channel : SelectedChannel) :
    ∃ payload : Map, payloadText (plannedPayload broker channel) = .document (.object payload) ∧
      payload.get "endpoint" = some (.string channel.endpoint) := by
  refine ⟨_, payloadText_eq _, ?_⟩
  rw [get_sortedMap, plannedPayload]
  simp [Map.get_cons, goMapOrder]

/-- Plans of brokers whose first channel is enabled respect the flags. -/
theorem Plans.respected (h : Plans brokers opts db₀ db) (hvalid : Accepted brokers)
    (hheads : ∀ broker ∈ inPlan brokers opts, ∀ channel, takenChannel broker = some channel →
      ¬ Disabled channel) : Respected brokers db₀ db := by
  have hbroker : ∀ selected ∈ selectedBrokers brokers opts,
      selected.1 ∈ inPlan brokers opts ∧ selected.1 ∈ brokers := by
    intro selected hsel
    have hin : selected.1 ∈ inPlan brokers opts := by
      rw [← map_selectedBrokers hvalid]
      exact List.mem_map_of_mem hsel
    refine ⟨hin, ?_⟩
    unfold inPlan at hin
    split_ifs at hin with hlimit
    · exact (List.mem_filter.1 (List.mem_of_mem_take hin)).1
    · exact (List.mem_filter.1 hin).1
  refine ⟨fun row hrow hnew broker hmem hid => ?_, fun broker hmem hall row hrow hnew hid => ?_,
    fun row hrow hnew hform event hevent hold hof => ?_⟩
  · obtain ⟨selected, hsel, hrowId, -⟩ := h.row row hrow hnew
    rw [eq_of_id hvalid hmem (hbroker selected hsel).2 (hid.trans hrowId)]
    exact hheads _ (hbroker selected hsel).1
  · obtain ⟨selected, hsel, hrowId, -⟩ := h.row row hrow hnew
    obtain rfl : broker = selected.1 :=
      eq_of_id hvalid hmem (hbroker selected hsel).2 (hid.symm.trans hrowId)
    cases hchannels : selected.1.optOut with
    | nil => exact optOut_ne_nil (hvalid.valid _ hmem) hchannels
    | cons channel channels =>
      have hhead : takenChannel selected.1 = some channel := by rw [takenChannel, hchannels]; rfl
      refine hheads _ (hbroker selected hsel).1 channel hhead (hall channel ?_)
      rw [hchannels]
      exact List.mem_cons_self ..
  · obtain ⟨selected, hsel, hrowId, hkind, hevents⟩ := h.row row hrow hnew
    obtain ⟨payload, hpayload, hendpoint⟩ := get_endpoint_payloadText selected.1 selected.2
    refine ⟨selected.2.endpoint, payload, (hevents event hevent hold hof).trans hpayload, hendpoint,
      fun dryRun => ?_⟩
    obtain ⟨formSpec, options, hhead⟩ :=
      head_of_webForm (selectChannel_of_mem hsel) (hkind.symm.trans hform)
    rw [hrowId]
    exact webFormPreview_of_head hvalid (hbroker selected hsel).2 hhead
      (hheads _ (hbroker selected hsel).1 _ hhead) dryRun

/-- Every plan of accepted brokers respects the disabled channels, exactly when no broker it is for
has a disabled channel in the first place. -/
theorem plan_respects_iff (env : Env) (brokers : List Broker) (identityHash : String)
    (opts : PlanOpts) (now : DateTime) (hvalid : Accepted brokers) :
    (∀ c : Conn Store Mail,
      Respected brokers c.db (planCampaign env brokers identityHash opts now c).2.db) ↔
    ∀ broker ∈ inPlan brokers opts, ∀ channel, takenChannel broker = some channel →
      ¬ Disabled channel := by
  constructor
  · intro h broker hin
    have hmem : broker ∈ (selectedBrokers brokers opts).map Prod.fst := by
      rw [map_selectedBrokers hvalid]
      exact hin
    obtain ⟨selected, hsel, rfl⟩ := List.mem_map.1 hmem
    obtain ⟨row, hrow, hnew, hid⟩ := exists_row_planCampaign env brokers identityHash opts now
      (Store.fresh.connect (τ := Mail)) (fun _ => rfl) selected hsel
    exact (h _).enabled row hrow hnew selected.1 (mem_of_mem_selectedBrokers hvalid hsel) hid.symm
  · exact fun h c => (plans_planCampaign env brokers identityHash opts now c).respected hvalid h

/-! ### A form that was moved -/

/-- A form of one step. -/
def optOutForm (url : String) (disabled : Option Bool) : Channel :=
  .webForm url { steps := [{ goto := some url }] } { disabled := disabled }

/-- A broker with an old form, switched off or not, and a new one. -/
def acmeMoved (disabled : Option Bool) : Broker :=
  { acme (optOutForm "https://acme.example/old" disabled) with
    optOut := [optOutForm "https://acme.example/old" disabled,
      optOutForm "https://acme.example/new" none] }

theorem accepted_acmeMoved (disabled : Option Bool) : Accepted [acmeMoved disabled] where
  nodup := List.nodup_singleton _
  valid := by
    intro broker hbroker
    rw [List.mem_singleton.1 hbroker]
    cases disabled with
    | none => decide
    | some flag => cases flag <;> decide

/-- While the old form is on, a plan respects the flags. -/
theorem plan_respects_acmeMoved :
    Respected [acmeMoved none] Store.fresh (planCampaign homeEnv [acmeMoved none] ""
      { campaignId := "spring" } epoch (Store.fresh.connect (τ := Mail))).2.db :=
  (plan_respects_iff homeEnv [acmeMoved none] "" { campaignId := "spring" } epoch
    (accepted_acmeMoved none)).2 (by decide) Store.fresh.connect

/-- Switched off, it is planned all the same. -/
theorem not_plan_respects_acmeMoved :
    ¬ ∀ brokers, Accepted brokers → ∀ c : Conn Store Mail, Respected brokers c.db
      (planCampaign homeEnv brokers "" { campaignId := "spring" } epoch c).2.db := by
  intro h
  have hplan := h _ (accepted_acmeMoved (some true)) Store.fresh.connect
  obtain ⟨row, hrow, hnew, hid⟩ := exists_row_planCampaign homeEnv [acmeMoved (some true)] ""
    { campaignId := "spring" } epoch (Store.fresh.connect (τ := Mail)) (fun _ => rfl)
    (acmeMoved (some true), .webForm "https://acme.example/old") (by decide)
  exact hplan.enabled row hrow hnew (acmeMoved (some true)) (List.mem_singleton_self _) hid.symm
    (optOutForm "https://acme.example/old" (some true)) rfl rfl

end EraseMe.Campaign
