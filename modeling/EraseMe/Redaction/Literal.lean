import EraseMe.Campaign
import EraseMe.Email.Policy
import EraseMe.Library.Base64Text
import EraseMe.Library.Replace

/-!
# Values that are replaced by markers

`redact_identity_values` replaces the values of a profile one after the other, and `redact_error`
the spellings of secrets.  Both are a list of replacements (`replaceList`), and every marker starts
and ends with a bracket.  So a value without brackets that is in none of the markers is gone after
its turn, and no later replacement brings it back (`not_infix_replaceList`).
-/

namespace EraseMe.Redaction

open Identity Text

/-! ### Lists of replacements -/

/-- A value and the marker put in its place. -/
abbrev Step := String × String

/-- Replace one text. -/
def replaceStep (text : String) (step : Step) : String :=
  Manualtasks.replaceNonEmpty text step.1 step.2

/-- Replace all in order. -/
def replaceList (text : String) (steps : List Step) : String := steps.foldl replaceStep text

/-- A text without brackets that none of the markers holds. -/
structure Plain (markers : List String) (value : String) : Prop where
  opening : '[' ∉ value.toList
  closing : ']' ∉ value.toList
  not_infix : ∀ marker ∈ markers, ¬ value.toList <:+: marker.toList

instance (markers : List String) (value : String) : Decidable (Plain markers value) :=
  decidable_of_iff ('[' ∉ value.toList ∧ ']' ∉ value.toList ∧
    ∀ marker ∈ markers, ¬ value.toList <:+: marker.toList)
    ⟨fun ⟨a, b, c⟩ => ⟨a, b, c⟩, fun ⟨a, b, c⟩ => ⟨a, b, c⟩⟩

/-- A marker: a text in brackets. -/
def IsMarker (marker : String) : Prop := ∃ inner, marker.toList = '[' :: (inner ++ [']'])

section Steps

variable {markers : List String} {steps : List Step} {value text : String}

theorem Plain.sealed (h : Plain markers value) {marker : String} (hmem : marker ∈ markers)
    (hmarker : IsMarker marker) : Sealed value.toList marker.toList := by
  obtain ⟨inner, hinner⟩ := hmarker
  exact ⟨⟨'[', inner, ']', hinner, h.opening, h.closing⟩, h.not_infix marker hmem⟩

theorem not_infix_replaceStep {step : Step} (h : Sealed value.toList step.2.toList)
    (hv : value ≠ "") (hstep : step.1 = value ∨ ¬ value.toList <:+: text.toList) :
    ¬ value.toList <:+: (replaceStep text step).toList := by
  unfold replaceStep Manualtasks.replaceNonEmpty
  split_ifs with hempty
  · rcases hstep with rfl | hstep
    · exact absurd hempty hv
    · exact hstep
  · rw [Text.replace, String.toList_ofList]
    have htoken : step.1.toList ≠ [] := fun hnil => hempty (String.toList_eq_nil_iff.1 hnil)
    exact h.not_infix_replaceAll htoken (hstep.imp_left (congrArg String.toList))

/-- A value that is replaced is not in the result, whatever else is replaced before and after. -/
theorem not_infix_replaceList (hsealed : ∀ step ∈ steps, Sealed value.toList step.2.toList)
    (hv : value ≠ "") (hstep : value ∈ steps.map Prod.fst ∨ ¬ value.toList <:+: text.toList) :
    ¬ value.toList <:+: (replaceList text steps).toList := by
  induction steps generalizing text with
  | nil =>
    rcases hstep with h | h
    · cases h
    · exact h
  | cons step steps ih =>
    rw [List.forall_mem_cons] at hsealed
    refine ih hsealed.2 ?_
    rw [List.map_cons, List.mem_cons] at hstep
    -- after the step for the value it is gone, and later markers do not bring it back
    rcases hstep with (rfl | hlater) | habsent
    · exact Or.inr (not_infix_replaceStep hsealed.1 hv (Or.inl rfl))
    · exact Or.inl hlater
    · exact Or.inr (not_infix_replaceStep hsealed.1 hv (Or.inr habsent))

theorem replaceList_append (text : String) (steps rest : List Step) :
    replaceList text (steps ++ rest) = replaceList (replaceList text steps) rest :=
  List.foldl_append

end Steps

/-! ### The values of a profile -/

/-- The markers of `redact_identity_values`. -/
def identityMarkers : List String :=
  ["[REDACTED-EMAIL]", "[REDACTED-PHONE]", "[REDACTED-NAME]", "[REDACTED-DOB]",
    "[REDACTED-STREET]", "[REDACTED-CITY]", "[REDACTED-POSTAL]", "[REDACTED-STATE]"]

/-- The texts of an address. -/
def addressValues (address : ProfileAddress) : List String :=
  [address.street, address.city, address.postalCode] ++ address.state.toList

/-- The values of a profile that must not be in a text. -/
def profileValues (profile : Profile) : List String :=
  profile.emailAddresses ++ profile.phoneNumbers ++ [profile.fullName] ++ profile.nameVariants ++
    profile.dateOfBirth.toList ++ profile.addresses.flatMap addressValues

def stepsOf (marker : String) (values : List String) : List Step := values.map (·, marker)

/-- What becomes of them. -/
def addressSteps (address : ProfileAddress) : List Step :=
  [(address.street, "[REDACTED-STREET]"), (address.city, "[REDACTED-CITY]"),
    (address.postalCode, "[REDACTED-POSTAL]")] ++
    stepsOf "[REDACTED-STATE]" address.state.toList

/-- What becomes of a profile. -/
def profileSteps (profile : Profile) : List Step :=
  stepsOf "[REDACTED-EMAIL]" profile.emailAddresses ++
    stepsOf "[REDACTED-PHONE]" profile.phoneNumbers ++ [(profile.fullName, "[REDACTED-NAME]")] ++
    stepsOf "[REDACTED-NAME]" profile.nameVariants ++
    stepsOf "[REDACTED-DOB]" profile.dateOfBirth.toList ++ profile.addresses.flatMap addressSteps

theorem replaceEach_eq (text : String) (values : List String) (marker : String) :
    Manualtasks.replaceEach text values marker = replaceList text (stepsOf marker values) := by
  rw [Manualtasks.replaceEach, replaceList, stepsOf, List.foldl_map]
  rfl

theorem redactAddress_eq (text : String) (address : ProfileAddress) :
    Manualtasks.redactAddress text address = replaceList text (addressSteps address) := by
  unfold Manualtasks.redactAddress addressSteps
  rw [replaceList_append, replaceEach_eq]
  rfl

theorem foldl_redactAddress (text : String) (addresses : List ProfileAddress) :
    addresses.foldl Manualtasks.redactAddress text =
      replaceList text (addresses.flatMap addressSteps) := by
  induction addresses generalizing text with
  | nil => rfl
  | cons address addresses ih =>
    rw [List.foldl_cons, redactAddress_eq, ih, List.flatMap_cons, replaceList_append]

/-- The redaction of a text is the list of its replacements. -/
theorem redactIdentityValues_eq (env : Env) (html : String) (profile : Profile) :
    Manualtasks.redactIdentityValues env html (some profile) =
      replaceList html (profileSteps profile) := by
  simp only [Manualtasks.redactIdentityValues, profileSteps, replaceList_append, replaceEach_eq,
    foldl_redactAddress]
  rfl

theorem map_stepsOf (marker : String) (values : List String) :
    (stepsOf marker values).map Prod.fst = values := by
  rw [stepsOf, List.map_map]
  exact List.map_id values

theorem map_addressSteps (address : ProfileAddress) :
    (addressSteps address).map Prod.fst = addressValues address := by
  simp [addressSteps, addressValues, map_stepsOf]

theorem map_profileSteps (profile : Profile) :
    (profileSteps profile).map Prod.fst = profileValues profile := by
  have haddresses : (profile.addresses.flatMap addressSteps).map Prod.fst =
      profile.addresses.flatMap addressValues := by
    rw [List.map_flatMap]
    congr 1
    funext address
    exact map_addressSteps address
  simp [profileSteps, profileValues, map_stepsOf, haddresses]

theorem marker_mem {step : Step} {profile : Profile} (h : step ∈ profileSteps profile) :
    step.2 ∈ identityMarkers := by
  have hof {marker : String} {values : List String} (hmem : step ∈ stepsOf marker values) :
      step.2 = marker := by
    obtain ⟨value, -, rfl⟩ := List.mem_map.1 hmem
    rfl
  simp only [profileSteps, List.mem_append, List.mem_singleton, List.mem_flatMap] at h
  rcases h with ((((h | h) | rfl) | h) | h) | ⟨address, -, h⟩
  · simp [hof h, identityMarkers]
  · simp [hof h, identityMarkers]
  · simp [identityMarkers]
  · simp [hof h, identityMarkers]
  · simp [hof h, identityMarkers]
  · simp only [addressSteps, List.mem_append, List.mem_cons, List.not_mem_nil, or_false] at h
    rcases h with (rfl | rfl | rfl) | h
    · simp [identityMarkers]
    · simp [identityMarkers]
    · simp [identityMarkers]
    · simp [hof h, identityMarkers]

theorem isMarker_identity : ∀ marker ∈ identityMarkers, IsMarker marker := by
  intro marker h
  refine ⟨marker.toList.tail.dropLast, ?_⟩
  revert marker h
  decide

/-- No value of the profile is left in a redacted text. -/
theorem not_infix_redactIdentityValues (env : Env) (html : String) {profile : Profile}
    {value : String} (hmem : value ∈ profileValues profile) (hv : value ≠ "")
    (hplain : Plain identityMarkers value) :
    ¬ value.toList <:+: (Manualtasks.redactIdentityValues env html (some profile)).toList := by
  rw [redactIdentityValues_eq]
  refine not_infix_replaceList (fun step hstep => ?_) hv (Or.inl ?_)
  · exact hplain.sealed (marker_mem hstep) (isMarker_identity _ (marker_mem hstep))
  · rwa [map_profileSteps]

/-! ### The spellings of a secret -/

/-- What becomes of a secret. -/
def secretSteps (secret : String) : List Step :=
  if secret = "" then [] else stepsOf "[REDACTED]" (Email.spellings secret)

theorem spelling_ne_empty {secret spelling : String} (hsecret : secret ≠ "")
    (h : spelling ∈ Email.spellings secret) : spelling ≠ "" := by
  have hoctets : Utf8.encode secret ≠ [] := by
    obtain ⟨c, t, hchars⟩ := List.exists_cons_of_ne_nil (mt String.toList_eq_nil_iff.1 hsecret)
    rw [Utf8.encode, hchars, List.flatMap_cons]
    simp [Utf8.encodeChar_ne_nil c]
  simp only [Email.spellings, List.mem_cons, List.not_mem_nil, or_false] at h
  rcases h with rfl | rfl | rfl | rfl | rfl
  · exact hsecret
  all_goals
    rw [Ne, ← String.toList_eq_nil_iff, String.toList_ofList]
    exact Base64.encode_ne_nil hoctets _

/-- Where no value is empty, nothing is skipped. -/
theorem replaceList_stepsOf {values : List String} (h : ∀ value ∈ values, value ≠ "")
    (text marker : String) :
    values.foldl (fun text value => Text.replace text value marker) text =
      replaceList text (stepsOf marker values) := by
  rw [replaceList, stepsOf, List.foldl_map]
  refine List.foldl_ext _ _ text fun text value hvalue => ?_
  rw [replaceStep, Manualtasks.replaceNonEmpty, if_neg (h value hvalue)]

theorem redactError_eq (message : String) (secrets : List String) :
    Email.redactError message secrets = replaceList message (secrets.flatMap secretSteps) := by
  unfold Email.redactError
  induction secrets generalizing message with
  | nil => rfl
  | cons secret secrets ih =>
    rw [List.foldl_cons, ih, List.flatMap_cons, replaceList_append]
    congr 1
    by_cases hsecret : secret = ""
    · rw [if_pos hsecret, secretSteps, if_pos hsecret]
      rfl
    · rw [if_neg hsecret, secretSteps, if_neg hsecret]
      exact replaceList_stepsOf (fun spelling => spelling_ne_empty hsecret) message "[REDACTED]"

/-- No spelling of a secret is left in an error text. -/
theorem not_infix_redactError (message : String) {secrets : List String} {secret spelling : String}
    (hmem : secret ∈ secrets) (hsecret : secret ≠ "")
    (hspelling : spelling ∈ Email.spellings secret) (hplain : Plain ["[REDACTED]"] spelling) :
    ¬ spelling.toList <:+: (Email.redactError message secrets).toList := by
  have hmarker : IsMarker "[REDACTED]" := ⟨"REDACTED".toList, by decide⟩
  rw [redactError_eq]
  refine not_infix_replaceList (fun step hstep => ?_) (spelling_ne_empty hsecret hspelling)
    (Or.inl ?_)
  · obtain ⟨other, -, hother⟩ := List.mem_flatMap.1 hstep
    unfold secretSteps at hother
    split_ifs at hother
    · cases hother
    · obtain ⟨value, -, rfl⟩ := List.mem_map.1 hother
      exact hplain.sealed List.mem_cons_self hmarker
  · rw [List.map_flatMap, List.mem_flatMap]
    refine ⟨secret, hmem, ?_⟩
    rw [secretSteps, if_neg hsecret, map_stepsOf]
    exact hspelling

/-! ### The two together -/

/-- Values of a profile and spellings of secrets that could be mistaken for no marker are gone from
the texts that are redacted, and from the texts of a web form's result. -/
theorem redaction_complete (env : Env) (profile : Profile) (secrets : List String)
    (hprofile : ∀ value ∈ profileValues profile, value ≠ "" → Plain identityMarkers value)
    (hsecrets : ∀ secret ∈ secrets, secret ≠ "" → Plain ["[REDACTED]"] secret) :
    (∀ html, ∀ value ∈ profileValues profile, value ≠ "" →
      ¬ value.toList <:+: (Manualtasks.redactIdentityValues env html (some profile)).toList) ∧
    (∀ message, ∀ secret ∈ secrets, secret ≠ "" →
      ¬ secret.toList <:+: (Email.redactError message secrets).toList ∧
      ∀ spelling ∈ Email.spellings secret, Plain ["[REDACTED]"] spelling →
        ¬ spelling.toList <:+: (Email.redactError message secrets).toList) ∧
    ∀ text limit, ∀ value ∈ profileValues profile, value ≠ "" →
      ¬ value.toList <:+: (Campaign.boundedRedacted env text (some profile) limit).toList := by
  have hvalues (html : String) : ∀ value ∈ profileValues profile, value ≠ "" →
      ¬ value.toList <:+: (Manualtasks.redactIdentityValues env html (some profile)).toList :=
    fun value hmem hv => not_infix_redactIdentityValues env html hmem hv (hprofile value hmem hv)
  refine ⟨hvalues, fun message secret hmem hsecret => ⟨?_, fun spelling hspelling hplain => ?_⟩,
    fun text limit value hmem hv hfound => ?_⟩
  · exact not_infix_redactError message hmem hsecret (by simp [Email.spellings])
      (hsecrets secret hmem hsecret)
  · exact not_infix_redactError message hmem hsecret hspelling hplain
  · -- what is cut off is only the end
    rw [Campaign.boundedRedacted, String.toList_ofList] at hfound
    exact hvalues _ value hmem hv (hfound.trans (List.take_prefix _ _).isInfix)

def quietEnv : Env where
  arch := .other
  hashProfile _ := ""
  redactPatterns text := text
  dataDir := none
  home := none
  ensureTasksDir _ := .ok ()
  writePrivate _ _ := true

def annaProfile : Profile :=
  { fullName := "Anna Berg", nameVariants := ["A. Berg"], emailAddresses := ["anna@berg.de"] }

/-- The values of a profile that overlap, and a password. -/
theorem redaction_complete_anna :
    (∀ html, ∀ value ∈ profileValues annaProfile, value ≠ "" →
      ¬ value.toList <:+:
        (Manualtasks.redactIdentityValues quietEnv html (some annaProfile)).toList) ∧
    (∀ message, ¬ "pass word".toList <:+: (Email.redactError message ["pass word"]).toList ∧
      ¬ "cGFzcyB3b3Jk".toList <:+: (Email.redactError message ["pass word"]).toList) := by
  obtain ⟨hprofile, hsecrets, -⟩ := redaction_complete quietEnv annaProfile ["pass word"]
    (by decide) (by decide)
  refine ⟨hprofile, fun message => ?_⟩
  obtain ⟨hraw, hspellings⟩ := hsecrets message "pass word" (by simp) (by decide)
  exact ⟨hraw, hspellings "cGFzcyB3b3Jk" (by decide) (by decide)⟩

end EraseMe.Redaction
