import EraseMe.Registry.Schema

/-!
# What the loader accepts satisfies the schema

One lemma for each kind of node, from the captcha up to the document: what decodes and passes the
checks satisfies the schema of its node, as far as it is strict.
-/

namespace EraseMe.Registry

open JsonSchema Result Serde Yaml

variable {v : Json}

theorem refuse_eq_ok {p : Prop} [Decidable p] {field message : String} :
    refuse p field message = .ok () ↔ ¬ p := by
  unfold refuse
  split_ifs with h
  · simp [h]
  · simp [h]

theorem validateEach_ok {α : Type} {label : String} {check : α → Except RegistryError Unit}
    {index : ℕ} {as : List α} (h : validateEach label check index as = .ok ()) :
    ∀ a ∈ as, check a = .ok () := by
  induction as generalizing index with
  | nil => simp
  | cons a as ih =>
    obtain ⟨_, ha, h⟩ := bind_eq_ok.1 h
    rintro b hb
    rcases List.mem_cons.1 hb with rfl | hb
    · exact mapError_eq_ok.1 ha
    · exact ih h b hb

/-- What is not outside of a range, when it is there. -/
theorem of_outside {x : F64} {low : F64 → Bool} (h : ¬ outside (some x) low = true) :
    low x = false := by
  simp only [outside, Option.any_some, Bool.or_eq_true, not_or] at h
  exact Bool.eq_false_iff.2 h.2

/-! ### Captchas -/

theorem solveCaptcha_conforms {captcha : SolveCaptcha}
    (hdecode : SolveCaptcha.decode (ofJson v) = .ok captcha)
    (hcheck : validateCaptcha captcha = .ok ())
    (hkey : ∀ key, .string key ∈ members "site_key" v → 8 ≤ key.length) :
    solveCaptchaSchema v = true := by
  simp only [SolveCaptcha.decode, bind_eq_ok] at hdecode
  obtain ⟨seen, hseen, captchaType, htype, siteKey, hsiteKey, provider, hprovider, action, haction,
    minScore, hminScore, isInvisible, hisInvisible, hcaptcha⟩ := hdecode
  cases hcaptcha
  obtain ⟨_, -, hscore⟩ := bind_eq_ok.1 hcheck
  rw [refuse_eq_ok] at hscore
  rcases struct_ofJson hseen with ⟨-, rfl⟩ | ⟨fields, rfl, hmembers, hknown⟩
  -- `null` has no members, so a required one is missing
  · cases htype
  simp only [solveCaptchaSchema, allOf_cons, allOf_nil, Bool.and_true, Bool.and_eq_true]
  refine ⟨rfl, properties_object (fun f hf => .inl (hknown f hf)) ?_, required_object ?_⟩
  · simp only [List.forall_mem_cons, List.not_mem_nil, IsEmpty.forall_iff, implies_true, and_true]
    refine ⟨fun x hx => ?_, fun x hx => ?_, fun x hx => ?_, fun x hx => ?_, fun x hx => ?_,
      fun x hx => ?_⟩
    · exact enum_variant rfl (hmembers.required_of_mem htype hx)
    · have hstring := string_ofJson (hmembers.required_of_mem hsiteKey hx)
      subst hstring
      have hlength := hkey siteKey (mem_members_object.2 hx)
      simp [type, hasType, minLength, hlength]
    · obtain ⟨-, _, -, hx⟩ := hmembers.optional_of_mem hprovider hx
      exact enum_variant rfl hx
    · obtain ⟨-, _, -, hx⟩ := hmembers.optional_of_mem haction hx
      exact type_string hx
    · obtain ⟨-, score, rfl, hx⟩ := hmembers.optional_of_mem hminScore hx
      have hrange := of_outside hscore
      simp only [Bool.or_eq_false_iff, Bool.not_eq_false'] at hrange
      simp [number_f64 hx, minimum_f64 (.inl rfl) hx hrange.1, maximum_one hx hrange.2]
    · obtain ⟨-, _, -, hx⟩ := hmembers.optional_of_mem hisInvisible hx
      exact type_boolean hx
  · simp only [List.forall_mem_cons, List.not_mem_nil, IsEmpty.forall_iff, implies_true, and_true]
    obtain ⟨x, hx, -⟩ := hmembers.mem_of_required htype
    obtain ⟨y, hy, -⟩ := hmembers.mem_of_required hsiteKey
    exact ⟨⟨x, hx⟩, ⟨y, hy⟩⟩

/-! ### Form steps -/

section Members

variable {fields : List (String × Json)} {seen : List (String × Yaml)} {name : String} {x : Json}

/-- A text that is there and not empty. -/
theorem text_conforms (hmembers : Seen fields seen) {value : Option String}
    (hvalue : optional name string seen = .ok value) (hne : value ≠ some "")
    (hx : (name, x) ∈ fields) : allOf [type .string, minLength 1] x = true := by
  obtain ⟨-, text, rfl, hx⟩ := hmembers.optional_of_mem hvalue hx
  rw [string_ofJson hx]
  have hlength : 1 ≤ text.length := by
    rw [Nat.one_le_iff_ne_zero, Ne, String.length_eq_zero_iff]
    exact fun h => hne (by rw [h])
  simp [type, hasType, minLength, hlength]

theorem selectors_conform (hmembers : Seen fields seen)
    {selectors : Option (BTreeMap String String)}
    (hselectors : optional name stringMap seen = .ok selectors)
    (hcheck : validateSelectors selectors = .ok ())
    (hfilled : .object [] ∉ members name (.object fields)) (hx : (name, x) ∈ fields) :
    selectorsSchema x = true := by
  obtain ⟨hnull, m, rfl, hdecode⟩ := hmembers.optional_of_mem hselectors hx
  rcases stringMap_ofJson hdecode with rfl | ⟨entries, rfl, htexts, hkeys⟩
  · exact absurd rfl hnull
  have hcheck := forM_eq_ok.1 hcheck
  simp only [selectorsSchema, allOf_cons, allOf_nil, Bool.and_true, Bool.and_eq_true]
  refine ⟨rfl, ?_, ?_, ?_⟩
  · refine List.all_eq_true.2 fun f hf => ?_
    obtain ⟨s, hs⟩ := htexts f hf
    rw [hs]
    rfl
  · refine List.all_eq_true.2 fun f hf => ?_
    obtain ⟨s, hs⟩ := hkeys f hf
    have hselector := refuse_eq_ok.1 (hcheck _ hs)
    exact rmatch_selectorPattern (Bool.not_eq_false _ ▸ hselector)
  · refine decide_eq_true (List.length_pos_iff.2 ?_)
    rintro rfl
    exact hfilled (mem_members_object.2 hx)

end Members

theorem formStep_conforms {step : FormStep} (hdecode : FormStep.decode (ofJson v) = .ok step)
    (hcheck : validateFormStep step = .ok ()) (hstrict : StrictStep v) :
    formStepSchema v = true := by
  simp only [FormStep.decode, bind_eq_ok] at hdecode
  obtain ⟨seen, hseen, goto, hgoto, fill, hfill, select, hselect, click, hclick, waitFor, hwaitFor,
    waitSeconds, hwaitSeconds, screenshot, hscreenshot, assertText, hassertText, solveCaptcha,
    hsolveCaptcha, hstep⟩ := hdecode
  cases hstep
  obtain ⟨_, htexts, hcheck⟩ := bind_eq_ok.1 hcheck
  obtain ⟨_, hpresent, hcheck⟩ := bind_eq_ok.1 hcheck
  obtain ⟨_, hwait, hcheck⟩ := bind_eq_ok.1 hcheck
  obtain ⟨_, hfillCheck, hcheck⟩ := bind_eq_ok.1 hcheck
  obtain ⟨_, hselectCheck, hcaptchaCheck⟩ := bind_eq_ok.1 hcheck
  rw [refuse_eq_ok] at hpresent hwait
  -- a step without members has no action
  have hne : seen ≠ [] := by
    rintro rfl
    cases hgoto
    cases hfill
    cases hselect
    cases hclick
    cases hwaitFor
    cases hwaitSeconds
    cases hscreenshot
    cases hassertText
    cases hsolveCaptcha
    exact hpresent rfl
  rcases struct_ofJson hseen with ⟨-, rfl⟩ | ⟨fields, rfl, hmembers, hknown⟩
  · exact absurd rfl hne
  have htexts := forM_eq_ok.1 htexts
  simp only [FormStep.texts, List.forall_mem_cons, List.not_mem_nil, IsEmpty.forall_iff,
    implies_true, and_true, refuse_eq_ok] at htexts
  obtain ⟨htext₁, htext₂, htext₃, htext₄, htext₅⟩ := htexts
  simp only [formStepSchema, allOf_cons, allOf_nil, Bool.and_true, Bool.and_eq_true]
  refine ⟨rfl, ?_, properties_object (fun f hf => .inl (hknown f hf)) ?_⟩
  · refine decide_eq_true (List.length_pos_iff.2 ?_)
    rintro rfl
    exact hne hmembers.eq
  · simp only [List.forall_mem_cons, List.not_mem_nil, IsEmpty.forall_iff, implies_true, and_true]
    refine ⟨fun x hx => text_conforms hmembers hgoto htext₁ hx, fun x hx => ?_, fun x hx => ?_,
      fun x hx => text_conforms hmembers hclick htext₂ hx,
      fun x hx => text_conforms hmembers hwaitFor htext₃ hx, fun x hx => ?_,
      fun x hx => text_conforms hmembers hscreenshot htext₄ hx,
      fun x hx => text_conforms hmembers hassertText htext₅ hx, fun x hx => ?_⟩
    · exact selectors_conform hmembers hfill hfillCheck (hstrict.filled "fill" (by simp)) hx
    · exact selectors_conform hmembers hselect hselectCheck (hstrict.filled "select" (by simp)) hx
    · obtain ⟨-, seconds, rfl, hx⟩ := hmembers.optional_of_mem hwaitSeconds hx
      simp [number_f64 hx, minimum_f64 (.inl rfl) hx (of_outside hwait)]
    · obtain ⟨-, captcha, rfl, hdecode⟩ := hmembers.optional_of_mem hsolveCaptcha hx
      exact solveCaptcha_conforms hdecode hcaptchaCheck
        (hstrict.keyed x (mem_members_object.2 hx))

/-! ### Form specifications -/

theorem formSpec_conforms {formSpec : FormSpec}
    (hdecode : FormSpec.decode (ofJson v) = .ok formSpec)
    (hcheck : validateFormSpec formSpec = .ok ())
    (hstrict : ∀ step ∈ (members "steps" v).flatMap elements, StrictStep step) :
    formSpecSchema v = true := by
  simp only [FormSpec.decode, bind_eq_ok] at hdecode
  obtain ⟨seen, hseen, steps, hsteps, timeoutSeconds, htimeout, rateLimitDelay, hdelay, headless,
    hheadless, hformSpec⟩ := hdecode
  cases hformSpec
  obtain ⟨_, hnonempty, hcheck⟩ := bind_eq_ok.1 hcheck
  obtain ⟨_, htimeoutCheck, hcheck⟩ := bind_eq_ok.1 hcheck
  obtain ⟨_, hdelayCheck, hstepsCheck⟩ := bind_eq_ok.1 hcheck
  rw [refuse_eq_ok] at hnonempty htimeoutCheck hdelayCheck
  rcases struct_ofJson hseen with ⟨-, rfl⟩ | ⟨fields, rfl, hmembers, hknown⟩
  -- `null` has no members, so a required one is missing
  · cases hsteps
  simp only [formSpecSchema, allOf_cons, allOf_nil, Bool.and_true, Bool.and_eq_true]
  refine ⟨rfl, properties_object (fun f hf => .inl (hknown f hf)) ?_, required_object ?_⟩
  · simp only [List.forall_mem_cons, List.not_mem_nil, IsEmpty.forall_iff, implies_true, and_true]
    refine ⟨fun x hx => ?_, fun x hx => ?_, fun x hx => ?_, fun x hx => ?_⟩
    · have hdecode := hmembers.required_of_mem hsteps hx
      have hitems : items formStepSchema x = true := by
        refine items_sequence hdecode fun y hy step hstep hdecode => ?_
        refine formStep_conforms hdecode (validateEach_ok hstepsCheck step hstep) ?_
        exact hstrict y (List.mem_flatMap.2 ⟨x, mem_members_object.2 hx, hy⟩)
      have hnull : x ≠ .null := by
        rintro rfl
        cases hdecode
        exact hnonempty rfl
      simp [array_sequence hdecode hnull, minItems_sequence hdecode hnonempty, hitems]
    · obtain ⟨-, seconds, rfl, hx⟩ := hmembers.optional_of_mem htimeout hx
      simp [number_f64 hx, minimum_f64 (.inr rfl) hx (of_outside htimeoutCheck)]
    · obtain ⟨-, seconds, rfl, hx⟩ := hmembers.optional_of_mem hdelay hx
      simp [number_f64 hx, minimum_f64 (.inl rfl) hx (of_outside hdelayCheck)]
    · obtain ⟨-, _, -, hx⟩ := hmembers.optional_of_mem hheadless hx
      exact type_boolean hx
  · simp only [List.forall_mem_cons, List.not_mem_nil, IsEmpty.forall_iff, implies_true, and_true]
    obtain ⟨x, hx, -⟩ := hmembers.mem_of_required hsteps
    exact ⟨x, hx⟩

/-! ### Keywords -/

theorem verification_conforms {verification : Verification} (hnull : v ≠ .null)
    (hdecode : Verification.decode (ofJson v) = .ok verification) :
    verificationSchema v = true := by
  simp only [Verification.decode, bind_eq_ok] at hdecode
  obtain ⟨seen, hseen, ack, hack, rejection, hrejection, human, hhuman, -⟩ := hdecode
  rcases struct_ofJson hseen with ⟨rfl, -⟩ | ⟨fields, rfl, hmembers, hknown⟩
  · exact absurd rfl hnull
  have hkeywords {name : String} {x : Json} {keywords : Option (List String)}
      (hdecode : optional name (sequence string) seen = .ok keywords) (hx : (name, x) ∈ fields) :
      allOf [type .array, items (type .string)] x = true := by
    obtain ⟨hnull, _, -, hdecode⟩ := hmembers.optional_of_mem hdecode hx
    have hitems : items (type .string) x = true :=
      items_sequence hdecode fun _ _ _ _ => type_string
    simp [array_sequence hdecode hnull, hitems]
  simp only [verificationSchema, allOf_cons, allOf_nil, Bool.and_true, Bool.and_eq_true]
  refine ⟨rfl, properties_object (fun f hf => .inl (hknown f hf)) ?_⟩
  simp only [List.forall_mem_cons, List.not_mem_nil, IsEmpty.forall_iff, implies_true, and_true]
  exact ⟨fun _ => hkeywords hack, fun _ => hkeywords hrejection, fun _ => hkeywords hhuman⟩

/-! ### Channels -/

/-- A channel has the fields of its kind and none of the other. -/
theorem intoModel_ok {wire : ChannelWire} {channel : Channel} (h : wire.intoModel = .ok channel) :
    (wire.channelType = .email ∧ wire.url = none ∧ wire.formSpec = none ∧
        ∃ endpoint, wire.endpoint = some endpoint ∧ channel = .email endpoint wire.options) ∨
      (wire.channelType = .webForm ∧ wire.endpoint = none ∧
        ∃ url formSpec, wire.url = some url ∧ wire.formSpec = some formSpec ∧
          channel = .webForm url formSpec wire.options) := by
  obtain ⟨channelType, endpoint, url, formSpec, options⟩ := wire
  unfold ChannelWire.intoModel at h
  cases channelType with
  | email =>
    cases endpoint with
    | none => cases h
    | some endpoint =>
      simp only at h
      split_ifs at h with hother
      cases h
      simp only [Option.isSome_iff_ne_none, not_or, not_not] at hother
      exact .inl ⟨rfl, hother.1, hother.2, endpoint, rfl, rfl⟩
  | webForm =>
    cases url with
    | none => cases h
    | some url =>
      cases formSpec with
      | none => cases h
      | some formSpec =>
        simp only at h
        split_ifs at h with hother
        cases h
        simp only [Option.isSome_iff_ne_none, not_not] at hother
        exact .inr ⟨rfl, hother, url, formSpec, rfl, rfl, rfl⟩

/-- What the checks of a channel say about its parts. -/
theorem validateChannel_ok {wire : ChannelWire} {channel : Channel}
    (hmodel : wire.intoModel = .ok channel) (hcheck : validateChannel channel = .ok ()) :
    validateOptions wire.options = .ok () ∧
      ∀ formSpec, wire.formSpec = some formSpec → validateFormSpec formSpec = .ok () := by
  rcases intoModel_ok hmodel with
    ⟨-, -, hnone, endpoint, -, rfl⟩ | ⟨-, -, url, formSpec, -, hsome, rfl⟩
  · obtain ⟨_, -, hoptions⟩ := bind_eq_ok.1 hcheck
    refine ⟨hoptions, fun formSpec hformSpec => ?_⟩
    rw [hnone] at hformSpec
    cases hformSpec
  · obtain ⟨_, -, hcheck⟩ := bind_eq_ok.1 hcheck
    obtain ⟨_, hformSpec, hoptions⟩ := bind_eq_ok.1 hcheck
    refine ⟨hoptions, fun other hother => ?_⟩
    rw [hsome] at hother
    cases hother
    exact hformSpec

theorem channel_conforms {wire : ChannelWire} {channel : Channel}
    (hdecode : ChannelWire.decode (ofJson v) = .ok wire) (hmodel : wire.intoModel = .ok channel)
    (hcheck : validateChannel channel = .ok ())
    (hstrict : ∀ step ∈ ((members "form_spec" v).flatMap (members "steps")).flatMap elements,
      StrictStep step) :
    optOutChannelSchema v = true := by
  obtain ⟨hoptions, hformSpecCheck⟩ := validateChannel_ok hmodel hcheck
  simp only [ChannelWire.decode, bind_eq_ok] at hdecode
  obtain ⟨seen, hseen, channelType, htype, endpoint, hendpoint, url, hurl, formSpec, hformSpec,
    template, htemplate, locale, hlocale, requiredFields, hrequiredFields, supportsSuppression,
    hsupports, expectedResponseDays, hdays, disabled, hdisabled, hwire⟩ := hdecode
  cases hwire
  obtain ⟨_, hlocaleCheck, hdaysCheck⟩ := bind_eq_ok.1 hoptions
  rw [refuse_eq_ok] at hdaysCheck
  rcases struct_ofJson hseen with ⟨-, rfl⟩ | ⟨fields, rfl, hmembers, hknown⟩
  -- `null` has no members, so a required one is missing
  · cases htype
  have hspec (x : Json) (hx : ("form_spec", x) ∈ fields) : formSpecSchema x = true := by
    obtain ⟨-, spec, rfl, hdecode⟩ := hmembers.optional_of_mem hformSpec hx
    refine formSpec_conforms hdecode (hformSpecCheck spec rfl) fun step hstep => hstrict step ?_
    rw [List.mem_flatMap] at hstep ⊢
    obtain ⟨steps, hsteps, hstep⟩ := hstep
    exact ⟨steps, List.mem_flatMap.2 ⟨x, mem_members_object.2 hx, hsteps⟩, hstep⟩
  simp only [optOutChannelSchema, allOf_cons, allOf_nil, Bool.and_true, Bool.and_eq_true]
  refine ⟨rfl, properties_object (fun f hf => .inl (hknown f hf)) ?_, required_object ?_, ?_⟩
  · simp only [List.forall_mem_cons, List.not_mem_nil, IsEmpty.forall_iff, implies_true, and_true]
    refine ⟨fun x hx => ?_, fun x hx => ?_, fun x hx => ?_, hspec, fun x hx => ?_, fun x hx => ?_,
      fun x hx => ?_, fun x hx => ?_, fun x hx => ?_, fun x hx => ?_⟩
    · exact enum_variant rfl (hmembers.required_of_mem htype hx)
    · obtain ⟨-, _, -, hx⟩ := hmembers.optional_of_mem hendpoint hx
      exact type_string hx
    · obtain ⟨-, _, -, hx⟩ := hmembers.optional_of_mem hurl hx
      exact type_string hx
    · obtain ⟨-, _, -, hx⟩ := hmembers.optional_of_mem htemplate hx
      exact enum_variant rfl hx
    · obtain ⟨-, text, rfl, hx⟩ := hmembers.optional_of_mem hlocale hx
      rw [string_ofJson hx]
      have hlocale := refuse_eq_ok.1 hlocaleCheck
      rw [Bool.not_eq_false] at hlocale
      simp [type, hasType, pattern, rmatch_localePattern hlocale]
    · obtain ⟨hnull, _, -, hx⟩ := hmembers.optional_of_mem hrequiredFields hx
      have hitems : items (allOf [type .string,
          enum ["full_name", "email", "address", "date_of_birth", "state"]]) x = true :=
        items_sequence hx fun _ _ _ _ => enum_variant rfl
      rw [allOf_cons, allOf_cons, array_sequence hx hnull, hitems]
      rfl
    · obtain ⟨-, _, -, hx⟩ := hmembers.optional_of_mem hsupports hx
      exact type_boolean hx
    · obtain ⟨-, days, rfl, hx⟩ := hmembers.optional_of_mem hdays hx
      have hpositive : 1 ≤ days.val := by
        simpa [Fin.lt_def, Nat.one_le_iff_ne_zero] using hdaysCheck
      have hminimum : minimum 1 x = true := minimum_unsigned hx hpositive
      simp [integer_unsigned hx, hminimum]
    · obtain ⟨-, _, -, hx⟩ := hmembers.optional_of_mem hdisabled hx
      exact type_boolean hx
  · simp only [List.forall_mem_cons, List.not_mem_nil, IsEmpty.forall_iff, implies_true, and_true]
    obtain ⟨x, hx, -⟩ := hmembers.mem_of_required htype
    exact ⟨x, hx⟩
  · -- the members that the kind asks for, and that it forbids
    have htypeOf (x : Json) (hx : ("type", x) ∈ fields) : x = .string channelType.registryName := by
      obtain ⟨s, rfl, hs⟩ := variant_ofJson (hmembers.required_of_mem htype hx)
      have hmem := mem_of_lookup hs
      simp only [named, List.map_cons, List.map_nil, List.mem_cons, Prod.mk.injEq,
        List.not_mem_nil, or_false] at hmem
      rcases hmem with ⟨rfl, rfl⟩ | ⟨rfl, rfl⟩
      · rfl
      · rfl
    have habsent {α : Type} {name : String} {value : Decoder α}
        (hdecode : optional name value seen = .ok none) (x : Json) : (name, x) ∉ fields := by
      intro hx
      obtain ⟨-, _, hnone, -⟩ := hmembers.optional_of_mem hdecode hx
      cases hnone
    rcases intoModel_ok hmodel with ⟨hkind, hnoUrl, hnoSpec, _, hsome, -⟩ |
      ⟨hkind, hnoEndpoint, _, _, hsomeUrl, hsomeSpec, -⟩
    · simp only at hkind hnoUrl hnoSpec hsome
      subst hkind hnoUrl hnoSpec hsome
      have hendpointThere := hmembers.mem_of_optional hendpoint
      have hnoUrl : required ["url"] (.object fields) = false :=
        required_eq_false List.mem_cons_self (habsent hurl)
      have hnoSpec : required ["form_spec"] (.object fields) = false :=
        required_eq_false List.mem_cons_self (habsent hformSpec)
      have hnoForm : required ["url", "form_spec"] (.object fields) = false :=
        required_eq_false List.mem_cons_self (habsent hurl)
      refine oneOf_left ?_ ?_
      · simp only [allOf_cons, allOf_nil, Bool.and_true, Bool.and_eq_true]
        refine ⟨properties_object (fun _ _ => .inr rfl) ?_, required_object ?_, ?_⟩
        · simp only [List.forall_mem_cons, List.not_mem_nil, IsEmpty.forall_iff, implies_true,
            and_true]
          refine ⟨fun x hx => ?_, fun x hx => ?_⟩
          · rw [htypeOf x hx]
            rfl
          · obtain ⟨-, _, -, hx⟩ := hmembers.optional_of_mem hendpoint hx
            exact type_string hx
        · simpa using hendpointThere
        · simp [JsonSchema.not, anyOf, hnoUrl, hnoSpec]
      · simp [hnoForm]
    · simp only at hkind hnoEndpoint hsomeUrl hsomeSpec
      subst hkind hnoEndpoint hsomeUrl hsomeSpec
      have hurlThere := hmembers.mem_of_optional hurl
      have hspecThere := hmembers.mem_of_optional hformSpec
      have hnoEndpoint : required ["endpoint"] (.object fields) = false :=
        required_eq_false List.mem_cons_self (habsent hendpoint)
      refine oneOf_right ?_ ?_
      · simp [hnoEndpoint]
      · simp only [allOf_cons, allOf_nil, Bool.and_true, Bool.and_eq_true]
        refine ⟨properties_object (fun _ _ => .inr rfl) ?_, required_object ?_, ?_⟩
        · simp only [List.forall_mem_cons, List.not_mem_nil, IsEmpty.forall_iff, implies_true,
            and_true]
          refine ⟨fun x hx => ?_, fun x hx => ?_, hspec⟩
          · rw [htypeOf x hx]
            rfl
          · obtain ⟨-, _, -, hx⟩ := hmembers.optional_of_mem hurl hx
            exact type_string hx
        · simpa using ⟨hurlThere, hspecThere⟩
        · simp [JsonSchema.not, hnoEndpoint]

/-! ### Documents -/

/-- The steps of a channel are steps of the document. -/
theorem Strict.channel {fields : List (String × Json)} {channels channel : Json}
    (h : Strict (.object fields)) (hchannels : ("opt_out", channels) ∈ fields)
    (hchannel : channel ∈ elements channels) :
    ∀ step ∈ ((members "form_spec" channel).flatMap (members "steps")).flatMap elements,
      StrictStep step := by
  intro step hstep
  refine h step ?_
  simp only [formSteps, List.mem_flatMap] at hstep ⊢
  obtain ⟨steps, ⟨spec, hspec, hsteps⟩, hstep⟩ := hstep
  exact ⟨steps, ⟨spec, ⟨channel, ⟨channels, mem_members_object.2 hchannels, hchannel⟩, hspec⟩,
    hsteps⟩, hstep⟩

/-- A list of an enumeration that is not empty. -/
theorem names_conform {α : Type} {names : List (String × α)} {values : List String} {x : Json}
    {as : List α} (hvalues : names.map (·.1) = values)
    (hdecode : sequence (variant names) (ofJson x) = .ok as) (hne : as ≠ []) :
    allOf [type .array, minItems 1, items (allOf [type .string, enum values])] x = true := by
  have hnull : x ≠ .null := by
    rintro rfl
    cases hdecode
    exact hne rfl
  have hitems : items (allOf [type .string, enum values]) x = true :=
    items_sequence hdecode fun _ _ _ _ => enum_variant hvalues
  rw [allOf_cons, allOf_cons, allOf_cons, array_sequence hdecode hnull,
    minItems_sequence hdecode hne, hitems]
  rfl

/-- The checks of a broker that the schema asks for as well. -/
structure Checked (stem : String) (broker : Broker) : Prop where
  stem : broker.id = stem
  id : broker.id ≠ "" ∧ (Utf8.encode broker.id).all isIdByte = true
  jurisdictions : broker.jurisdictions ≠ []
  laws : broker.laws ≠ []
  dataSensitivity : 1 ≤ broker.dataSensitivity.val ∧ broker.dataSensitivity.val ≤ 5
  optOut : broker.optOut ≠ []
  channels : ∀ channel ∈ broker.optOut, validateChannel channel = .ok ()

theorem validateBroker_ok {stem : String} {model broker : Broker}
    (h : validateBroker stem model = .ok broker) : broker = model ∧ Checked stem broker := by
  simp only [validateBroker, bind_eq_ok] at h
  obtain ⟨_, hstem, _, hid, _, -, _, -, _, hjurisdictions, _, hlaws, _, hsensitivity, _, hoptOut, _,
    hchannels, _, -, hbroker⟩ := h
  cases hbroker
  rw [refuse_eq_ok] at hstem hid hjurisdictions hlaws hsensitivity hoptOut
  rw [not_or, Bool.not_eq_false] at hid
  exact ⟨rfl, not_not.1 hstem, hid, hjurisdictions, hlaws, not_not.1 hsensitivity, hoptOut,
    validateEach_ok hchannels⟩

theorem broker_conforms {wire : BrokerWire} {broker : Broker} {stem : String}
    (hdecode : BrokerWire.decode (ofJson v) = .ok wire) (hmodel : wire.intoModel = .ok broker)
    (hcheck : Checked stem broker) (hstrict : Strict v) : brokerSchema v = true := by
  simp only [BrokerWire.decode, bind_eq_ok] at hdecode
  obtain ⟨seen, hseen, id, hid, name, hname, website, hwebsite, category, hcategory, jurisdictions,
    hjurisdictions, laws, hlaws, dataSensitivity, hsensitivity, priority, hpriority, wires, hwires,
    verification, hverification, disabled, hdisabled, addedDate, haddedDate, source, hsource,
    status, hstatus, notes, hnotes, hwire⟩ := hdecode
  cases hwire
  obtain ⟨channels, hchannels, hmodel⟩ := bind_eq_ok.1 hmodel
  cases hmodel
  rcases struct_ofJson hseen with ⟨-, rfl⟩ | ⟨fields, rfl, hmembers, hknown⟩
  -- `null` has no members, so a required one is missing
  · cases hid
  simp only [brokerSchema, allOf_cons, allOf_nil, Bool.and_true, Bool.and_eq_true]
  refine ⟨rfl, properties_object (fun f hf => .inl (hknown f hf)) ?_, required_object ?_⟩
  · simp only [List.forall_mem_cons, List.not_mem_nil, IsEmpty.forall_iff, implies_true, and_true]
    refine ⟨fun x hx => ?_, fun x hx => ?_, fun x hx => ?_, fun x hx => ?_, fun x hx => ?_,
      fun x hx => ?_, fun x hx => ?_, fun x hx => ?_, fun x hx => ?_, fun x hx => ?_,
      fun x hx => ?_, fun x hx => ?_, fun x hx => ?_, fun x hx => ?_, fun x hx => ?_⟩
    · rw [string_ofJson (hmembers.required_of_mem hid hx)]
      simp [type, hasType, pattern, rmatch_idPattern hcheck.id.1 hcheck.id.2]
    · exact type_string (hmembers.required_of_mem hname hx)
    · exact type_string (hmembers.required_of_mem hwebsite hx)
    · exact enum_variant rfl (hmembers.required_of_mem hcategory hx)
    · exact names_conform rfl (hmembers.required_of_mem hjurisdictions hx) hcheck.jurisdictions
    · exact names_conform rfl (hmembers.required_of_mem hlaws hx) hcheck.laws
    · have hx := hmembers.withDefault_of_mem hsensitivity hx
      have hminimum : minimum 1 x = true := minimum_unsigned hx hcheck.dataSensitivity.1
      have hmaximum : maximum 5 x = true := maximum_unsigned hx hcheck.dataSensitivity.2
      simp [integer_unsigned hx, hminimum, hmaximum]
    · exact enum_variant rfl (hmembers.required_of_mem hpriority hx)
    · have hdecode := hmembers.required_of_mem hwires hx
      have hne : wires ≠ [] := by
        rintro rfl
        cases hchannels
        exact hcheck.optOut rfl
      have hnull : x ≠ .null := by
        rintro rfl
        cases hdecode
        exact hne rfl
      have hitems : items optOutChannelSchema x = true := by
        refine items_sequence hdecode fun y hy wire hwire hdecode => ?_
        obtain ⟨channel, hchannel, hmodel⟩ := exists_of_mapM hchannels hwire
        exact channel_conforms hdecode hmodel (hcheck.channels channel hchannel)
          (hstrict.channel hx hy)
      simp [array_sequence hdecode hnull, minItems_sequence hdecode hne, hitems]
    · obtain ⟨hnull, _, -, hx⟩ := hmembers.optional_of_mem hverification hx
      exact verification_conforms hnull hx
    · obtain ⟨-, _, -, hx⟩ := hmembers.optional_of_mem hdisabled hx
      exact type_boolean hx
    · obtain ⟨-, _, -, hx⟩ := hmembers.optional_of_mem haddedDate hx
      exact type_string hx
    · obtain ⟨-, _, -, hx⟩ := hmembers.optional_of_mem hsource hx
      exact type_string hx
    · exact enum_variant rfl (hmembers.withDefault_of_mem hstatus hx)
    · obtain ⟨-, _, -, hx⟩ := hmembers.optional_of_mem hnotes hx
      exact type_string hx
  · simp only [List.forall_mem_cons, List.not_mem_nil, IsEmpty.forall_iff, implies_true, and_true]
    have hthere {α : Type} {name : String} {value : Decoder α} {a : α}
        (hdecode : required name value seen = .ok a) : ∃ x, (name, x) ∈ fields := by
      obtain ⟨x, hx, -⟩ := hmembers.mem_of_required hdecode
      exact ⟨x, hx⟩
    exact ⟨hthere hid, hthere hname, hthere hwebsite, hthere hcategory, hthere hjurisdictions,
      hthere hlaws, hthere hpriority, hthere hwires⟩

/-- The identifier is there once, and it is the name of the file. -/
theorem members_id {wire : BrokerWire} {broker : Broker} {stem : String}
    (hdecode : BrokerWire.decode (ofJson v) = .ok wire) (hmodel : wire.intoModel = .ok broker)
    (hcheck : Checked stem broker) : members "id" v = [.string stem] := by
  simp only [BrokerWire.decode, bind_eq_ok] at hdecode
  obtain ⟨seen, hseen, id, hid, _, -, _, -, _, -, _, -, _, -, _, -, _, -, _, -, _, -, _, -, _, -, _,
    -, _, -, _, -, hwire⟩ := hdecode
  cases hwire
  obtain ⟨_, -, hmodel⟩ := bind_eq_ok.1 hmodel
  cases hmodel
  rcases struct_ofJson hseen with ⟨-, rfl⟩ | ⟨fields, rfl, hmembers, -⟩
  · cases hid
  obtain ⟨x, hx, hstring⟩ := hmembers.mem_of_required hid
  have hstem : id = stem := hcheck.stem
  rw [members_of_nodup hmembers.nodup hx, string_ofJson hstring, hstem]

/-- A document that the loader accepts satisfies the schema, under the name of its file, exactly
when it is strict. -/
theorem Broker.fromYaml_schema_iff {reader : YamlReader} {stem source : String} {document : Json}
    {broker : Broker} (hvalue : reader.fromStr source = .ok (ofJson document))
    (h : Broker.fromYaml reader stem source = .ok broker) :
    (brokerSchema document = true ∧ members "id" document = [.string stem]) ↔ Strict document := by
  unfold Broker.fromYaml at h
  cases hmetrics : decodeWithMetrics reader stem source with
  | error error =>
    rw [hmetrics] at h
    cases h
  | ok decoded =>
    rw [hmetrics] at h
    cases h
    simp only [decodeWithMetrics, bind_eq_ok, mapError_eq_ok, hvalue] at hmetrics
    obtain ⟨_, -, _, hraw, _, -, _, -, _, -, _, -, wire, hdecode, model, hmodel, broker, hcheck,
      hdecoded⟩ := hmetrics
    cases hraw
    cases hdecoded
    obtain ⟨rfl, hchecked⟩ := validateBroker_ok hcheck
    exact ⟨fun hschema => strict_of_schema hschema.1, fun hstrict =>
      ⟨broker_conforms hdecode hmodel hchecked hstrict, members_id hdecode hmodel hchecked⟩⟩

/-! ### A document in block style -/

mutual

/-- The tokens of a value in block style. -/
def blockTokens : Json → List Token
  | .array items => .blockSequenceStart :: (itemTokens items ++ [.blockEnd])
  | .object [] => [.flowMappingStart, .flowMappingEnd]
  | .object (f :: fields) => .blockMappingStart :: (memberTokens (f :: fields) ++ [.blockEnd])
  | _ => [.scalar]

def itemTokens : List Json → List Token
  | [] => []
  | v :: items => .blockEntry :: (blockTokens v ++ itemTokens items)

def memberTokens : List (String × Json) → List Token
  | [] => []
  | (_, v) :: fields => .key :: .scalar :: .value :: (blockTokens v ++ memberTokens fields)

end

/-- What the libraries make of one text. -/
def blockReader (text : String) (document : Json) : YamlReader where
  scan source :=
    if source = text then (.streamStart :: (blockTokens document ++ [.streamEnd]), none)
    else ([.streamStart, .streamEnd], none)
  fromStr source := if source = text then .ok (ofJson document) else .ok .null
  describe _ := "invalid type"

theorem fromStr_blockReader (text : String) (document : Json) :
    (blockReader text document).fromStr text = .ok (ofJson document) := if_pos rfl

/-- A document with one step. -/
def acmeDocument (fill : Json) (siteKey : String) : Json :=
  .object [("id", .string "acme"), ("name", .string "Acme"),
    ("website", .string "https://acme.example"), ("category", .string "marketing"),
    ("jurisdictions", .array [.string "DE"]), ("laws", .array [.string "GDPR"]),
    ("priority", .string "high"),
    ("opt_out", .array [.object [("type", .string "web_form"),
      ("url", .string "https://acme.example/form"),
      ("form_spec", .object [("steps", .array [.object [("click", .string "#send"), ("fill", fill),
        ("solve_captcha", .object [("type", .string "hcaptcha"),
          ("site_key", .string siteKey)])]])])]])]

def acmeText (fill siteKey : String) : String :=
  "id: acme\nname: Acme\nwebsite: https://acme.example\ncategory: marketing\njurisdictions:\n" ++
    "  - DE\nlaws:\n  - GDPR\npriority: high\nopt_out:\n  - type: web_form\n" ++
    "    url: https://acme.example/form\n    form_spec:\n      steps:\n" ++
    "        - click: '#send'\n          fill: " ++ fill ++
    "\n          solve_captcha:\n            type: hcaptcha\n            site_key: " ++ siteKey

/-- A key of four letters with two bytes each. -/
def shortKey : Json := acmeDocument (.object [("#name", .string "x")]) "éééé"

/-- Nothing to fill in. -/
def nothingFilled : Json := acmeDocument (.object []) "abcdefgh"

theorem fromYaml_accepts_invalid :
    (Broker.fromYaml (blockReader (acmeText "\n            '#name': x" "éééé") shortKey) "acme"
        (acmeText "\n            '#name': x" "éééé")).isOk = true ∧ brokerSchema shortKey = false ∧
      (Broker.fromYaml (blockReader (acmeText "\x7b\x7d" "abcdefgh") nothingFilled) "acme"
        (acmeText "\x7b\x7d" "abcdefgh")).isOk = true ∧ brokerSchema nothingFilled = false := by
  decide +kernel

/-- A document without either slip. -/
def strictDocument : Json := acmeDocument (.object [("#name", .string "x")]) "abcdefgh"

theorem fromYaml_schema_iff_strictDocument :
    (brokerSchema strictDocument = true ∧ members "id" strictDocument = [.string "acme"]) ↔
      Strict strictDocument := by
  have hok : (Broker.fromYaml
      (blockReader (acmeText "\n            '#name': x" "abcdefgh") strictDocument) "acme"
      (acmeText "\n            '#name': x" "abcdefgh")).isOk = true := by
    decide +kernel
  cases h : Broker.fromYaml
      (blockReader (acmeText "\n            '#name': x" "abcdefgh") strictDocument) "acme"
      (acmeText "\n            '#name': x" "abcdefgh") with
  | error error =>
    rw [h] at hok
    cases hok
  | ok broker => exact Broker.fromYaml_schema_iff (fromStr_blockReader _ _) h

end EraseMe.Registry
