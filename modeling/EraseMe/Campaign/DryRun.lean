import EraseMe.Campaign.Execute

/-!
# Dry runs

A dry run of an e-mail request writes nothing.  A dry run of a web-form request does: a form that
is found is recorded as sent, and one that is not found gets a manual task and a failure.  It
writes nothing only where it stops early (`Harmless`): without a request, with a profile that
cannot be resolved, or without a directory for the task.  `dryRun_unchanged_iff` says so for one
request and for a campaign.
-/

namespace EraseMe.Campaign

open Chrono Identity Json Registry Sqlite Storage

/-- The events, the states and the manual tasks are the same. -/
def SameTables (db₀ db : Store) : Prop :=
  db.events = db₀.events ∧ db.state = db₀.state ∧ db.tasks = db₀.tasks

/-- A dry run of the request stops before it writes: there is no such request, its channel is not
a web form, the profile cannot be resolved, or the form is not found and there is neither a pending
task nor a directory for a new one. -/
def Harmless (env : Env) (opts : ExecuteOpts) (source : ProfileSource) (db : Store)
    (requestId : ℤ) : Prop :=
  ∀ request profile, db.request requestId = some request → channelOf request = "web_form" →
    source = .ok profile → previewed opts request.brokerId = false ∧
      Undirected env requestId request.brokerId opts profile db

variable {A : Reply → Prop} {env : Env} {opts : ExecuteOpts} {source : ProfileSource}
  {now : DateTime} {requestId : ℤ} {db₀ db : Store} {tr₀ tr : List Mail}

/-- A dry run hands no mail over. -/
theorem not_mailed_of_dryRun (hdry : opts.dryRun = true) :
    ¬ Mailed A env requestId opts source now db₀ tr₀ db tr := by
  rintro ⟨request, profile, sender, h, -⟩
  have := h.live
  rw [hdry] at this
  cases this

theorem eq_of_harmless (hdry : opts.dryRun = true) (h : Harmless env opts source db₀ requestId)
    (hrun : Executed A env requestId opts source now db₀ tr₀ db tr) : db = db₀ := by
  rcases hrun with ⟨hdb, -⟩ | hmailed | ⟨request, profile, hreq, hchannel, hsource, -, hfiled⟩
  · exact hdb
  · exact absurd hmailed (not_mailed_of_dryRun hdry)
  · obtain ⟨hpre, hund⟩ := h request profile hreq hchannel hsource
    rw [Filed, hpre, if_neg (by simp)] at hfiled
    rcases hfiled with ⟨hdb, -⟩ | ⟨hdirected, -⟩
    · exact hdb
    · exact absurd hund hdirected

/-- The events of a request that was touched do not get fewer. -/
theorem OnlyTouches.length_le {text : String} (h : OnlyTouches requestId text db₀ db) :
    db₀.events.rows.length ≤ db.events.rows.length := by
  obtain ⟨new, hrows, -⟩ := h.rows_eq
  rw [hrows, List.length_append]
  omega

theorem length_of_recorded {arch : TargetArch} {eventType : EventType} {payload : Map}
    (h : Recorded arch requestId eventType payload now db₀ db) :
    db.events.rows.length = db₀.events.rows.length + 1 := by
  obtain ⟨recordedAt, writtenAt, rfl⟩ := h
  simp

/-- Without a failing statement, a dry run that is not harmless appends an event. -/
theorem length_lt_of_not_harmless (hA : ¬ CanFail A) (hdry : opts.dryRun = true)
    (h : ¬ Harmless env opts source db₀ requestId)
    (hrun : Executed A env requestId opts source now db₀ tr₀ db tr) :
    db₀.events.rows.length < db.events.rows.length := by
  rcases hrun with ⟨-, -, hfail | hidle⟩ | hmailed | ⟨request, profile, hreq, -, rfl, -, hfiled⟩
  · exact absurd hfail hA
  · exact absurd (fun request profile hreq hchannel hsource =>
      absurd hsource (hidle.form request profile hreq hchannel)) h
  · exact absurd hmailed (not_mailed_of_dryRun hdry)
  · unfold Filed at hfiled
    split_ifs at hfiled with hpre
    · rcases hfiled with ⟨-, hfail⟩ | ⟨payload, hrecorded⟩
      · exact absurd hfail hA
      · rw [length_of_recorded hrecorded]
        omega
    · rcases hfiled with ⟨-, hfail | hund⟩ | ⟨-, db₁, hcreated, ⟨-, hfail⟩ | ⟨payload, hrecorded⟩⟩
      · exact absurd hfail hA
      · refine absurd (fun r p hr _ hp => ?_) h
        rw [hreq] at hr
        cases hr
        cases hp
        exact ⟨by simpa using hpre, hund⟩
      · exact absurd hfail hA
      · have hle : db₀.events.rows.length ≤ db₁.events.rows.length := by
          rcases hcreated with rfl | ⟨path, hcreated⟩
          · exact le_rfl
          · exact (OnlyTouches.created rfl hcreated).length_le
        rw [length_of_recorded hrecorded]
        omega

/-- A dry run leaves the tables as they are exactly when the requests it runs are harmless; when
they are, also with failing statements. -/
theorem dryRun_unchanged_iff (env : Env) (opts : ExecuteOpts) (source : ProfileSource)
    (now : DateTime) (c : Conn Store Mail) (hdry : opts.dryRun = true) :
    (∀ requestId,
      (Harmless env opts source c.db requestId →
        SameTables c.db (executeRequest env requestId opts source now c).2.db) ∧
      ((∀ n, Faultless (c.replies n)) →
        SameTables c.db (executeRequest env requestId opts source now c).2.db →
        Harmless env opts source c.db requestId)) ∧
    ∀ campaignId batchSize,
      ((∀ row ∈ batchOf c.db campaignId batchSize (c.replies 1).rank,
          Harmless env opts source c.db row.id) →
        SameTables c.db
          (executeCampaign env campaignId opts source batchSize now c).2.db) ∧
      ((∀ n, Faultless (c.replies n)) →
        SameTables c.db (executeCampaign env campaignId opts source batchSize now c).2.db →
        ∀ row ∈ batchOf c.db campaignId batchSize (c.replies 1).rank,
          Harmless env opts source c.db row.id) := by
  refine ⟨fun requestId => ⟨fun h => ?_, fun hc hsame => ?_⟩,
    fun campaignId batchSize => ⟨fun h => ?_, fun hc hsame => ?_⟩⟩
  · have hrun := (executeRequest_spec env requestId opts source now c.db c.trace).run c ⟨rfl, rfl⟩
    rw [eq_of_harmless hdry h hrun]
    exact ⟨rfl, rfl, rfl⟩
  · have hrun := (executeRequest_spec (A := Faultless) env requestId opts source now c.db
      c.trace c hc ⟨rfl, rfl⟩).2
    by_contra h
    have hlt := length_lt_of_not_harmless not_canFail_faultless hdry h hrun
    rw [hsame.1] at hlt
    exact absurd hlt (lt_irrefl _)
  · rcases executeCampaign_cases env campaignId opts source batchSize now c with
      ⟨hdb, -⟩ | hbatch
    · rw [hdb]
      exact ⟨rfl, rfl, rfl⟩
    · have hspec : Triple AnyReply (fun db _ => db = c.db) (executeBatch env opts source now
          (batchOf c.db campaignId batchSize (c.replies 1).rank)) fun _ db _ => db = c.db := by
        refine executeBatch_spec env opts source now _ (fun _ db _ => db = c.db) ?_
        rintro pre row post hsplit db₀ tr₀ rfl db tr hrun
        exact eq_of_harmless hdry (h row (by rw [hsplit]; simp)) hrun
      rw [hbatch, hspec.run c.next.next rfl]
      exact ⟨rfl, rfl, rfl⟩
  · rcases executeCampaign_cases env campaignId opts source batchSize now c with
      ⟨-, -, n, hn⟩ | hbatch
    · exact absurd (hc n) hn
    · -- until the first harmful request the store is the same, and from then on it has more events
      have hspec := executeBatch_spec (A := Faultless) env opts source now
        (batchOf c.db campaignId batchSize (c.replies 1).rank)
        (fun pre db _ => (db = c.db ∧ ∀ row ∈ pre, Harmless env opts source c.db row.id) ∨
          c.db.events.rows.length < db.events.rows.length) ?_
      · rw [hbatch] at hsame
        rcases (hspec c.next.next (fun n => hc (n + 2)) (Or.inl ⟨rfl, by simp⟩)).2 with
          ⟨-, hall⟩ | hlt
        · exact hall
        · rw [hsame.1] at hlt
          exact absurd hlt (lt_irrefl _)
      · intro pre row post hsplit db₀ tr₀ hinv db tr hrun
        rcases hinv with ⟨rfl, hpre⟩ | hlt
        · by_cases h : Harmless env opts source c.db row.id
          · refine Or.inl ⟨eq_of_harmless hdry h hrun, fun r hr => ?_⟩
            rcases List.mem_append.1 hr with hr | hr
            · exact hpre r hr
            · rw [List.mem_singleton.1 hr]
              exact h
          · exact Or.inr (length_lt_of_not_harmless not_canFail_faultless hdry h hrun)
        · exact Or.inr (lt_of_lt_of_le hlt hrun.onlyTouches.length_le)

/-! ### A campaign with one broker -/

/-- An environment with a home directory. -/
def homeEnv : Env where
  arch := .x86_64
  hashProfile := fun _ => "0f"
  redactPatterns := id
  dataDir := none
  home := some "/home/jo"
  ensureTasksDir := fun _ => .ok ()
  writePrivate := fun _ _ => true

/-- A broker with one channel. -/
def acme (channel : Channel) : Broker where
  id := "acme"
  name := "Acme Data"
  website := "https://acme.example"
  category := .marketing
  jurisdictions := [.de]
  laws := [.gdpr]
  priority := .high
  optOut := [channel]

/-- A broker with an address. -/
def acmeMail : Broker :=
  acme (.email "privacy@acme.example" { expectedResponseDays := some 45 })

/-- A broker with a form. -/
def acmeForm : Broker := acme (.webForm "https://acme.example/opt-out" { steps := [{}] } {})

/-- The store after the broker was planned at the epoch. -/
def plannedStore (broker : Broker) : Store :=
  (planCampaign (τ := Mail) homeEnv [broker] "" { campaignId := "spring" } epoch
    Store.fresh.connect).2.db

theorem dryRun_unchanged_acmeMail :
    SameTables (plannedStore acmeMail)
      (executeRequest homeEnv 1 { dryRun := true } (.ok none) epoch
        (plannedStore acmeMail).connect).2.db ∧
    SameTables (plannedStore acmeMail)
      (executeCampaign homeEnv "spring" { dryRun := true } (.ok none) 5 epoch
        (plannedStore acmeMail).connect).2.db := by
  have hchannel : ((plannedStore acmeMail).request 1).map channelOf = some "email" := by
    decide
  have hbatch : (batchOf (plannedStore acmeMail) "spring" 5 fun _ => 0).map
      (fun row => row.id) = [1] := by
    decide
  have hharmless : Harmless homeEnv { dryRun := true } (.ok none) (plannedStore acmeMail) 1 := by
    intro request profile hreq hform
    rw [hreq, Option.map_some, hform] at hchannel
    simp at hchannel
  have h := dryRun_unchanged_iff homeEnv { dryRun := true } (.ok none) epoch
    (plannedStore acmeMail).connect rfl
  refine ⟨(h.1 1).1 hharmless, (h.2 "spring" 5).1 fun row hrow => ?_⟩
  have hid : row.id ∈ [(1 : ℤ)] := by
    rw [← hbatch]
    exact List.mem_map_of_mem hrow
  rw [List.mem_singleton.1 hid]
  exact hharmless

/-- A dry run records the form as sent. -/
theorem dryRun_changes_acmeForm :
    ¬ SameTables (plannedStore acmeForm)
      (executeRequest homeEnv 1 { dryRun := true, brokers := [acmeForm] } (.ok none) epoch
        (plannedStore acmeForm).connect).2.db ∧
    ¬ SameTables (plannedStore acmeForm)
      (executeCampaign homeEnv "spring" { dryRun := true, brokers := [acmeForm] } (.ok none) 5 epoch
        (plannedStore acmeForm).connect).2.db := by
  have hlength : (plannedStore acmeForm).events.rows.length = 1 ∧
      (executeRequest homeEnv 1 { dryRun := true, brokers := [acmeForm] } (.ok none) epoch
        (plannedStore acmeForm).connect).2.db.events.rows.length = 2 ∧
      (executeCampaign homeEnv "spring" { dryRun := true, brokers := [acmeForm] } (.ok none) 5 epoch
        (plannedStore acmeForm).connect).2.db.events.rows.length = 2 := by
    decide
  obtain ⟨h₀, h₁, h₂⟩ := hlength
  constructor
  · intro h
    rw [h.1, h₀] at h₁
    cases h₁
  · intro h
    rw [h.1, h₀] at h₂
    cases h₂

end EraseMe.Campaign
