import EraseMe.Campaign.Channels
import EraseMe.Templating

/-!
# The templates of a plan

The name of a template is built from the template and the locale of a channel, and looked up only
when it is rendered.  Of the names a plan stores, those of a template with a translation are
embedded (`planned_templates`): there is none without a locale.
-/

namespace EraseMe.Campaign

open Chrono Identity Json Registry Sqlite Storage Templating

variable {brokers : List Broker} {opts : PlanOpts} {env : Env} {identityHash : String}
  {now : DateTime} {db₀ db : Store}

/-- The template is embedded in the locale. -/
def Translated : Template → String → Prop
  | .ccpaDeletion, locale => locale = "en"
  | .gdprArt17, locale => locale = "en" ∨ locale = "de"

/-! ### The names -/

/-- The embedded names that begin like a law. -/
theorem eq_of_starts {name : String} (hname : name ∈ templates) :
    ("ccpa-deletion.".toList <+: name.toList → name = "ccpa-deletion." ++ "en" ++ ".md.j2") ∧
      ("gdpr-art17.".toList <+: name.toList →
        name = "gdpr-art17." ++ "en" ++ ".md.j2" ∨ name = "gdpr-art17." ++ "de" ++ ".md.j2") := by
  revert name
  decide

theorem append_cancel {a b c d : String} (h : a ++ b ++ c = a ++ d ++ c) : b = d := by
  have hlist := congrArg String.toList h
  simp only [String.toList_append, List.append_assoc, List.append_cancel_left_eq,
    List.append_cancel_right_eq] at hlist
  exact String.toList_inj.1 hlist

/-- The name of a template in a locale is embedded exactly if the template is translated. -/
theorem mem_templates_iff (template : Template) (locale : String) :
    resolveTemplate (.email "" (some template) locale 0) ∈ templates ↔
      Translated template locale := by
  by_cases hlocale : locale = ""
  · subst hlocale
    cases template <;> simp only [Translated] <;> decide
  have hname : resolveTemplate (.email "" (some template) locale 0) =
      templateName template ++ "." ++ locale ++ ".md.j2" := if_neg hlocale
  have hprefix : (templateName template ++ ".").toList <+:
      (templateName template ++ "." ++ locale ++ ".md.j2").toList :=
    ⟨(locale ++ ".md.j2").toList, by simp⟩
  rw [hname]
  constructor
  · intro hmem
    cases template with
    | ccpaDeletion => exact append_cancel ((eq_of_starts hmem).1 hprefix)
    | gdprArt17 => exact ((eq_of_starts hmem).2 hprefix).imp append_cancel append_cancel
  · cases template with
    | ccpaDeletion =>
      rintro rfl
      decide
    | gdprArt17 =>
      rintro (rfl | rfl) <;> decide

/-- The name of a template has no directory. -/
theorem withoutDirectory_resolveTemplate (template : Template) (locale : String) :
    withoutDirectory (resolveTemplate (.email "" (some template) locale 0)).toList =
      (resolveTemplate (.email "" (some template) locale 0)).toList := by
  simp only [resolveTemplate]
  split_ifs <;> cases template <;> simp [withoutDirectory, Text.stripPrefix, templateName]

/-- An embedded name of a law is accepted for rendering, and no other one is. -/
theorem canonicalName_resolveTemplate (template : Template) (locale : String) :
    (∃ name, canonicalName (resolveTemplate (.email "" (some template) locale 0)) = .ok name) ↔
      Translated template locale := by
  constructor
  · rintro ⟨name, h⟩
    have hname := eq_of_canonicalName h
    rw [withoutDirectory_resolveTemplate, String.ofList_toList] at hname
    rw [← mem_templates_iff, ← hname]
    exact mem_templates_of_canonicalName h
  · intro h
    refine ⟨resolveTemplate (.email "" (some template) locale 0), ?_⟩
    cases template with
    | ccpaDeletion =>
      obtain rfl : locale = "en" := h
      decide
    | gdprArt17 =>
      obtain rfl | rfl := h <;> decide

/-! ### The rows of a plan -/

/-- The new rows are those planned for selected brokers. -/
structure PlannedRows (brokers : List Broker) (identityHash : String) (opts : PlanOpts)
    (db₀ db : Store) : Prop where
  seq_le : db₀.requests.seq ≤ db.requests.seq
  row : ∀ row ∈ db.requests.rows, db₀.requests.seq < row.1 →
    ∃ selected ∈ selectedBrokers brokers opts, ∃ createdAt,
      row.2 = plannedColumns identityHash opts selected createdAt

theorem PlannedRows.withRequest (h : PlannedRows brokers identityHash opts db₀ db)
    {selected : Broker × SelectedChannel} (hsel : selected ∈ selectedBrokers brokers opts)
    (createdAt : String) : PlannedRows brokers identityHash opts db₀
      (db.withRequest (plannedColumns identityHash opts selected createdAt)) where
  seq_le := by
    have := h.seq_le
    change db₀.requests.seq ≤ db.requests.seq + 1
    omega
  row row hrow hnew := by
    rcases List.mem_append.1 hrow with hrow | hrow
    · exact h.row row hrow hnew
    · rw [List.mem_singleton.1 hrow]
      exact ⟨selected, hsel, createdAt, rfl⟩

/-- Also a plan that fails leaves such rows only. -/
theorem plannedRows_planCampaign (env : Env) (brokers : List Broker) (identityHash : String)
    (opts : PlanOpts) (now : DateTime) {τ : Type} (c : Conn Store τ) :
    PlannedRows brokers identityHash opts c.db
      (planCampaign env brokers identityHash opts now c).2.db := by
  refine (planCampaign_keeps (A := AnyReply) env brokers identityHash opts now
    (PlannedRows brokers identityHash opts c.db) (fun _ _ h => ⟨h.seq_le, h.row⟩)
    (fun _ _ createdAt hsel h => h.withRequest hsel createdAt) ?_).run c
      ⟨le_rfl, fun row hrow hnew => absurd (c.db.requests.le_seq row hrow) (by omega)⟩
  rintro selected db₁ db hsel h ⟨createdAt, recordedAt, writtenAt, rfl⟩
  have hrequest : PlannedRows brokers identityHash opts c.db
      (db₁.withRequest (plannedColumns identityHash opts selected createdAt)) :=
    h.withRequest hsel createdAt
  exact ⟨hrequest.seq_le, hrequest.row⟩

/-- The template stored for an e-mail channel that names one is accepted for rendering exactly if
the template is embedded in the locale of the channel. -/
theorem planned_templates (env : Env) (brokers : List Broker) (identityHash : String)
    (opts : PlanOpts) (now : DateTime) (hvalid : Accepted brokers) (c : Conn Store Mail) :
    ∀ row ∈ (planCampaign env brokers identityHash opts now c).2.db.requests.rows,
      c.db.requests.seq < row.1 → ∀ broker ∈ brokers, broker.id = row.2.brokerId →
        ∀ endpoint options template, takenChannel broker = some (.email endpoint options) →
          options.template = some template →
            ((∃ name, canonicalName row.2.templateId = .ok name) ↔
              Translated template (options.locale.getD "")) := by
  intro row hrow hnew broker hbroker hid endpoint options template htaken htemplate
  obtain ⟨selected, hsel, createdAt, hcolumns⟩ :=
    (plannedRows_planCampaign env brokers identityHash opts now c).row row hrow hnew
  rw [hcolumns] at hid ⊢
  obtain rfl : broker = selected.1 :=
    eq_of_id hvalid hbroker (mem_of_mem_selectedBrokers hvalid hsel) hid
  have hselect := selectChannel_of_mem hsel
  obtain ⟨channels, hchannels⟩ := List.head?_eq_some_iff.1 htaken
  unfold selectChannel at hselect
  rw [hchannels] at hselect
  have hchannel := (Option.some.inj hselect).symm
  rw [htemplate] at hchannel
  simp only [plannedColumns, hchannel]
  exact canonicalName_resolveTemplate template (options.locale.getD "")

/-! ### A letter with and without a locale -/

/-- A broker that is sent a letter by the European law. -/
def acmeLetter (locale : Option String) : Broker :=
  acme (.email "privacy@acme.example" { template := some .gdprArt17, locale := locale })

/-- The plan for that broker in a store of its own. -/
def letterStore (locale : Option String) : Store :=
  (planCampaign homeEnv [acmeLetter locale] "" { campaignId := "spring" } epoch
    (Store.fresh.connect (τ := Mail))).2.db

theorem accepted_acmeLetter (locale : Option String)
    (h : locale = none ∨ locale = some "en") : Accepted [acmeLetter locale] where
  nodup := List.nodup_singleton _
  valid := by
    intro broker hbroker
    rw [List.mem_singleton.1 hbroker]
    obtain rfl | rfl := h <;> decide

/-- The broker and its channel in the plan. -/
def letter (locale : Option String) : Broker × SelectedChannel :=
  (acmeLetter locale, .email "privacy@acme.example" (some .gdprArt17) (locale.getD "") 30)

theorem selectedBrokers_letter (locale : Option String)
    (h : locale = none ∨ locale = some "en") :
    selectedBrokers [acmeLetter locale] { campaignId := "spring" } = [letter locale] := by
  obtain rfl | rfl := h <;> rfl

/-- The row of the letter is the planned one. -/
theorem exists_letter (locale : Option String) (h : locale = none ∨ locale = some "en") :
    ∃ row ∈ (letterStore locale).requests.rows, 0 < row.1 ∧ ∃ createdAt,
      row.2 = plannedColumns "" { campaignId := "spring" } (letter locale) createdAt := by
  obtain ⟨row, hrow, hnew, -⟩ := exists_row_planCampaign homeEnv [acmeLetter locale] ""
    { campaignId := "spring" } epoch (Store.fresh.connect (τ := Mail)) (fun _ => rfl)
    (letter locale) (by rw [selectedBrokers_letter locale h]; exact List.mem_singleton_self _)
  obtain ⟨planned, hplanned, createdAt, hcolumns⟩ :=
    (plannedRows_planCampaign homeEnv [acmeLetter locale] "" { campaignId := "spring" } epoch
      (Store.fresh.connect (τ := Mail))).row row hrow hnew
  rw [selectedBrokers_letter locale h, List.mem_singleton] at hplanned
  rw [hplanned] at hcolumns
  have hseq : (Store.fresh.connect (τ := Mail)).db.requests.seq = 0 := rfl
  rw [hseq] at hnew
  refine ⟨row, ?_, hnew, createdAt, hcolumns⟩
  unfold letterStore
  exact hrow

theorem planned_templates_english :
    ∃ row ∈ (letterStore (some "en")).requests.rows,
      ∃ name, canonicalName row.2.templateId = .ok name := by
  obtain ⟨row, hrow, hnew, createdAt, hcolumns⟩ := exists_letter (some "en") (Or.inr rfl)
  have hid : "acme" = row.2.brokerId := by rw [hcolumns]; rfl
  exact ⟨row, hrow, (planned_templates homeEnv [acmeLetter (some "en")] ""
    { campaignId := "spring" } epoch (accepted_acmeLetter _ (Or.inr rfl)) Store.fresh.connect
    row hrow hnew (acmeLetter (some "en")) (List.mem_singleton_self _) hid _ _ .gdprArt17 rfl
    rfl).2 (Or.inl rfl)⟩

/-- Without a locale the name of the letter is not embedded. -/
theorem not_planned_templates :
    ¬ ∀ brokers, Accepted brokers → ∀ c : Conn Store Mail,
      let c' := (planCampaign homeEnv brokers "" { campaignId := "spring" } epoch c).2
      ∀ row ∈ c'.db.requests.rows,
        c.db.requests.seq < row.1 → row.2.channel = "email" → row.2.templateId ≠ "" →
          ∃ name, canonicalName row.2.templateId = .ok name := by
  intro h
  obtain ⟨row, hrow, hnew, createdAt, hcolumns⟩ := exists_letter none (Or.inl rfl)
  have hchannel : row.2.channel = "email" := by rw [hcolumns]; rfl
  have hname : row.2.templateId = "gdpr-art17.md.j2" := by rw [hcolumns]; rfl
  obtain ⟨name, hresolved⟩ := h _ (accepted_acmeLetter none (Or.inl rfl)) Store.fresh.connect row
    hrow hnew hchannel (by rw [hname]; decide)
  have hunknown : canonicalName "gdpr-art17.md.j2" = .error unknownTemplate := by decide
  rw [hname, hunknown] at hresolved
  cases hresolved

end EraseMe.Campaign
