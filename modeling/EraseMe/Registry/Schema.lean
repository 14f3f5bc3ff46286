import EraseMe.Library.SerdeSchema
import EraseMe.Registry.Document

/-!
# The schema of broker documents

`brokerSchema` is `registry/schemas/broker.schema.json`, with its definitions in their places.  A
document that `fromYaml` accepts satisfies it except where the loader counts the bytes of a site
key, or passes over an empty `fill` or `select` beside another action; `Strict` is what is missing.
-/

namespace EraseMe.Registry

open JsonSchema

/-! ### The schema -/

/-- A character of a selector is escaped in the source where a regular expression needs it. -/
def selectorPattern : RegularExpression Char :=
  oneChar (lowercase ++ uppercase ++ ['[', '#', '.', '*']) *
    (oneChar (lowercase ++ uppercase ++ digits ++
      ['[', ']', '=', '.', '\'', '"', '_', ':', '#', '.', '-', ' ', '*', '>', ',', '~', '+'])).star

/-- The schema of selectors. -/
def selectorsSchema : Schema :=
  allOf [type .object, properties [] (type .string), propertyNames (pattern selectorPattern),
    minProperties 1]

/-- The schema of a captcha. -/
def solveCaptchaSchema : Schema :=
  allOf [type .object,
    properties [
      ("type", allOf [type .string,
        enum ["recaptcha-v2", "recaptcha-v3", "hcaptcha", "turnstile"]]),
      ("site_key", allOf [type .string, minLength 8]),
      ("provider", allOf [type .string, enum ["capsolver", "2captcha", "anticaptcha"]]),
      ("action", type .string),
      ("min_score", allOf [type .number, minimum 0, maximum 1]),
      ("is_invisible", type .boolean)] nothing,
    required ["type", "site_key"]]

/-- The schema of a step. -/
def formStepSchema : Schema :=
  allOf [type .object, minProperties 1,
    properties [
      ("goto", allOf [type .string, minLength 1]),
      ("fill", selectorsSchema),
      ("select", selectorsSchema),
      ("click", allOf [type .string, minLength 1]),
      ("wait_for", allOf [type .string, minLength 1]),
      ("wait_seconds", allOf [type .number, minimum 0]),
      ("screenshot", allOf [type .string, minLength 1]),
      ("assert_text", allOf [type .string, minLength 1]),
      ("solve_captcha", solveCaptchaSchema)] nothing]

/-- The schema of a form. -/
def formSpecSchema : Schema :=
  allOf [type .object,
    properties [
      ("steps", allOf [type .array, minItems 1, items formStepSchema]),
      ("timeout_seconds", allOf [type .number, minimum 1]),
      ("rate_limit_delay", allOf [type .number, minimum 0]),
      ("headless", type .boolean)] nothing,
    required ["steps"]]

/-- The schema of keywords. -/
def verificationSchema : Schema :=
  allOf [type .object,
    properties [
      ("ack_keywords", allOf [type .array, items (type .string)]),
      ("rejection_keywords", allOf [type .array, items (type .string)]),
      ("human_required_keywords", allOf [type .array, items (type .string)])] nothing]

def localePattern : RegularExpression Char :=
  oneChar lowercase * oneChar lowercase *
    (1 + RegularExpression.char '-' * (oneChar uppercase * oneChar uppercase))

/-- The schema of a channel. -/
def optOutChannelSchema : Schema :=
  allOf [type .object,
    properties [
      ("type", allOf [type .string, enum ["email", "web_form"]]),
      ("endpoint", type .string),
      ("url", type .string),
      ("form_spec", formSpecSchema),
      ("template", allOf [type .string, enum ["ccpa-deletion", "gdpr-art17"]]),
      ("locale", allOf [type .string, pattern localePattern]),
      ("required_fields", allOf [type .array, items (allOf [type .string,
        enum ["full_name", "email", "address", "date_of_birth", "state"]])]),
      ("supports_suppression", type .boolean),
      ("expected_response_days", allOf [type .integer, minimum 1]),
      ("disabled", type .boolean)] nothing,
    required ["type"],
    oneOf [
      allOf [
        properties [("type", const "email"), ("endpoint", type .string)] anything,
        required ["endpoint"],
        not (anyOf [required ["url"], required ["form_spec"]])],
      allOf [
        properties [("type", const "web_form"), ("url", type .string),
          ("form_spec", formSpecSchema)] anything,
        required ["url", "form_spec"],
        not (required ["endpoint"])]]]

def idPattern : RegularExpression Char :=
  oneChar (lowercase ++ digits ++ ['-']) * (oneChar (lowercase ++ digits ++ ['-'])).star

/-- The schema of a broker. -/
def brokerSchema : Schema :=
  allOf [type .object,
    properties [
      ("id", allOf [type .string, pattern idPattern]),
      ("name", type .string),
      ("website", type .string),
      ("category", allOf [type .string, enum ["people-search", "marketing", "credit", "analytics",
        "background-check", "social-media", "other"]]),
      ("jurisdictions", allOf [type .array, minItems 1, items (allOf [type .string,
        enum ["AT", "CH", "DE", "DK", "EU", "FI", "FR", "GB", "IE", "IL", "LU", "NL", "NO", "SE",
          "UK", "US"]])]),
      ("laws", allOf [type .array, minItems 1, items (allOf [type .string,
        enum ["GDPR", "CCPA", "CPRA", "LGPD", "PIPEDA"]])]),
      ("data_sensitivity", allOf [type .integer, minimum 1, maximum 5]),
      ("priority", allOf [type .string, enum ["high", "medium", "low"]]),
      ("opt_out", allOf [type .array, minItems 1, items optOutChannelSchema]),
      ("verification", verificationSchema),
      ("disabled", type .boolean),
      ("added_date", type .string),
      ("source", type .string),
      ("status", allOf [type .string, enum ["active", "deprecated", "merged", "out-of-business"]]),
      ("notes", type .string)] nothing,
    required ["id", "name", "website", "category", "jurisdictions", "laws", "priority", "opt_out"]]

/-! ### What the loader lets through -/

/-- The form steps of a document. -/
def formSteps (document : Json) : List Json :=
  ((((members "opt_out" document).flatMap elements).flatMap (members "form_spec")).flatMap
    (members "steps")).flatMap elements

/-- Collections of actions have entries, and site keys have eight characters. -/
structure StrictStep (step : Json) : Prop where
  filled : ∀ name ∈ ["fill", "select"], .object [] ∉ members name step
  keyed : ∀ captcha ∈ members "solve_captcha" step,
    ∀ key, .string key ∈ members "site_key" captcha → 8 ≤ key.length

/-- Every step is strict. -/
def Strict (document : Json) : Prop := ∀ step ∈ formSteps document, StrictStep step

/-! ### The schema asks for it -/

theorem strictStep_of_schema {step : Json} (h : formStepSchema step = true) : StrictStep step := by
  simp only [formStepSchema, allOf_cons, Bool.and_eq_true] at h
  obtain ⟨-, -, hprops, -⟩ := h
  constructor
  · intro name hname hmem
    have hselectors : selectorsSchema (.object []) = true := by
      rcases List.mem_pair.1 hname with rfl | rfl
      · exact properties_members hprops rfl hmem
      · exact properties_members hprops rfl hmem
    cases hselectors
  · intro captcha hcaptcha key hkey
    have hschema : solveCaptchaSchema captcha = true := properties_members hprops rfl hcaptcha
    simp only [solveCaptchaSchema, allOf_cons, Bool.and_eq_true] at hschema
    have hlength : (allOf [type .string, minLength 8]) (.string key) = true :=
      properties_members hschema.2.1 rfl hkey
    simp only [allOf_cons, Bool.and_eq_true] at hlength
    exact of_decide_eq_true hlength.2.1

theorem strict_of_schema {document : Json} (h : brokerSchema document = true) :
    Strict document := by
  intro step hstep
  simp only [formSteps, List.mem_flatMap] at hstep
  obtain ⟨steps, ⟨spec, ⟨channel, ⟨channels, hchannels, hchannel⟩, hspec⟩, hsteps⟩, hstep⟩ := hstep
  simp only [brokerSchema, allOf_cons, Bool.and_eq_true] at h
  have hchannels : (allOf [type .array, minItems 1, items optOutChannelSchema]) channels = true :=
    properties_members h.2.1 rfl hchannels
  simp only [allOf_cons, Bool.and_eq_true] at hchannels
  have hchannel := items_elements hchannels.2.2.1 hchannel
  simp only [optOutChannelSchema, allOf_cons, Bool.and_eq_true] at hchannel
  have hspec : formSpecSchema spec = true := properties_members hchannel.2.1 rfl hspec
  simp only [formSpecSchema, allOf_cons, Bool.and_eq_true] at hspec
  have hsteps : (allOf [type .array, minItems 1, items formStepSchema]) steps = true :=
    properties_members hspec.2.1 rfl hsteps
  simp only [allOf_cons, Bool.and_eq_true] at hsteps
  exact strictStep_of_schema (items_elements hsteps.2.2.1 hstep)

/-! ### Texts -/

section Texts

variable {c : Char}

/-- The code of an ASCII character from that of its octet. -/
theorem toNat_octet (hc : c.toNat < 128) : (Utf8.octet c).toNat = c.toNat := by
  rw [Utf8.octet, UInt8.toNat_ofNat', Nat.mod_eq_of_lt (by omega)]

theorem mem_lowercase (hc : c.toNat < 128) (h : isAsciiLowercase (Utf8.octet c) = true) :
    c ∈ lowercase := by
  have hall : ∀ n < 128, 97 ≤ n → n ≤ 122 → Char.ofNat n ∈ lowercase := by decide
  simp only [isAsciiLowercase, decide_eq_true_eq, UInt8.le_iff_toNat_le, toNat_octet hc,
    UInt8.reduceToNat] at h
  rw [← Char.ofNat_toNat c]
  exact hall _ hc h.1 h.2

theorem mem_uppercase (hc : c.toNat < 128) (h : isAsciiUppercase (Utf8.octet c) = true) :
    c ∈ uppercase := by
  have hall : ∀ n < 128, 65 ≤ n → n ≤ 90 → Char.ofNat n ∈ uppercase := by decide
  simp only [isAsciiUppercase, decide_eq_true_eq, UInt8.le_iff_toNat_le, toNat_octet hc,
    UInt8.reduceToNat] at h
  rw [← Char.ofNat_toNat c]
  exact hall _ hc h.1 h.2

theorem mem_digits (hc : c.toNat < 128) (h : isAsciiDigit (Utf8.octet c) = true) :
    c ∈ digits := by
  have hall : ∀ n < 128, 48 ≤ n → n ≤ 57 → Char.ofNat n ∈ digits := by decide
  simp only [isAsciiDigit, decide_eq_true_eq, UInt8.le_iff_toNat_le, toNat_octet hc,
    UInt8.reduceToNat] at h
  rw [← Char.ofNat_toNat c]
  exact hall _ hc h.1 h.2

/-- What is accepted as an identifier matches its pattern. -/
theorem rmatch_idPattern {id : String} (hne : id ≠ "")
    (h : (Utf8.encode id).all isIdByte = true) : idPattern.rmatch id.toList = true := by
  have hbytes := List.all_eq_true.1 h
  obtain ⟨hencode, hascii⟩ := Utf8.encode_eq_map_octet (s := id) fun b hb => by
    have := hbytes b hb
    simp only [isIdByte, isAsciiLowercase, isAsciiDigit, decide_eq_true_eq,
      UInt8.le_iff_toNat_le, UInt8.lt_iff_toNat_lt, ← UInt8.toNat_inj, UInt8.reduceToNat] at this ⊢
    omega
  have hmem (c : Char) (hc : c ∈ id.toList) : c ∈ lowercase ++ digits ++ ['-'] := by
    have hbyte : isIdByte (Utf8.octet c) = true :=
      hbytes _ (hencode ▸ List.mem_map.2 ⟨c, hc, rfl⟩)
    simp only [isIdByte, decide_eq_true_eq] at hbyte
    rcases hbyte with hlower | hdigit | hdash
    · simp [mem_lowercase (hascii c hc) hlower]
    · simp [mem_digits (hascii c hc) hdigit]
    · have hnat : c.toNat = 45 := by
        rw [← toNat_octet (hascii c hc), hdash]
        rfl
      have hchar : c = '-' := Char.toNat_inj.1 hnat
      simp [hchar]
  cases hchars : id.toList with
  | nil => exact absurd (String.toList_eq_nil_iff.1 hchars) hne
  | cons c cs =>
    rw [hchars] at hmem
    exact rmatch_oneChar_mul_star (hmem c List.mem_cons_self) fun d hd =>
      hmem d (List.mem_cons_of_mem _ hd)

theorem rmatch_selectorPattern {selector : String} (h : isSelector selector = true) :
    selectorPattern.rmatch selector.toList = true := by
  unfold isSelector at h
  cases hchars : selector.toList with
  | nil =>
    rw [hchars] at h
    cases h
  | cons c cs =>
    simp only [hchars, decide_eq_true_eq, List.all_eq_true] at h
    have hsubset : ∀ d ∈ selectorRest, d ∈ lowercase ++ uppercase ++ digits ++
        ['[', ']', '=', '.', '\'', '"', '_', ':', '#', '.', '-', ' ', '*', '>', ',', '~', '+'] := by
      decide
    exact rmatch_oneChar_mul_star h.1 fun d hd => hsubset d (h.2 d hd)

theorem rmatch_pair {cs : List Char} {c d : Char} (hc : c ∈ cs) (hd : d ∈ cs) :
    (oneChar cs * oneChar cs).rmatch [c, d] = true :=
  (RegularExpression.mul_rmatch_iff _ _ _).2
    ⟨[c], [d], rfl, rmatch_oneChar hc, rmatch_oneChar hd⟩

theorem lt_of_isAsciiLowercase {b : UInt8} (h : isAsciiLowercase b = true) : b < 0x80 := by
  simp only [isAsciiLowercase, decide_eq_true_eq, UInt8.le_iff_toNat_le, UInt8.lt_iff_toNat_lt,
    UInt8.reduceToNat] at h ⊢
  omega

theorem lt_of_isAsciiUppercase {b : UInt8} (h : isAsciiUppercase b = true) : b < 0x80 := by
  simp only [isAsciiUppercase, decide_eq_true_eq, UInt8.le_iff_toNat_le, UInt8.lt_iff_toNat_lt,
    UInt8.reduceToNat] at h ⊢
  omega

theorem rmatch_localePattern {locale : String} (h : isLocale locale = true) :
    localePattern.rmatch locale.toList = true := by
  unfold isLocale at h
  split at h
  · -- a language
    rename_i a b hbytes
    obtain ⟨ha, hb⟩ := of_decide_eq_true h
    obtain ⟨hencode, hlt⟩ := Utf8.encode_eq_map_octet (s := locale) (by
      simp [hbytes, lt_of_isAsciiLowercase ha, lt_of_isAsciiLowercase hb])
    rw [hbytes] at hencode
    rcases hchars : locale.toList with _ | ⟨c, _ | ⟨d, _ | ⟨_, _⟩⟩⟩ <;> rw [hchars] at hencode <;>
      try cases hencode
    rw [hchars] at hlt
    have hpair := rmatch_pair (mem_lowercase (hlt c (by simp)) ha)
      (mem_lowercase (hlt d (by simp)) hb)
    refine (RegularExpression.mul_rmatch_iff _ _ _).2 ⟨[c, d], [], rfl, hpair, ?_⟩
    exact (RegularExpression.add_rmatch_iff _ _ _).2
      (.inl ((RegularExpression.one_rmatch_iff _).2 rfl))
  · -- a language and a region
    rename_i a b m x y hbytes
    obtain ⟨hm, ha, hb, hx, hy⟩ := of_decide_eq_true h
    obtain ⟨hencode, hlt⟩ := Utf8.encode_eq_map_octet (s := locale) (by
      simp [hbytes, hm, lt_of_isAsciiLowercase ha, lt_of_isAsciiLowercase hb,
        lt_of_isAsciiUppercase hx, lt_of_isAsciiUppercase hy])
    rw [hbytes] at hencode
    rcases hchars : locale.toList with
      _ | ⟨c, _ | ⟨d, _ | ⟨n, _ | ⟨u, _ | ⟨v, _ | ⟨_, _⟩⟩⟩⟩⟩⟩ <;>
      rw [hchars] at hencode <;> try cases hencode
    rw [hchars] at hlt
    have hdash : n = '-' := by
      have hnat : n.toNat = 45 := by
        rw [← toNat_octet (hlt n (by simp)), hm]
        rfl
      exact Char.toNat_inj.1 hnat
    subst hdash
    have hlanguage := rmatch_pair (mem_lowercase (hlt c (by simp)) ha)
      (mem_lowercase (hlt d (by simp)) hb)
    have hregion := rmatch_pair (mem_uppercase (hlt u (by simp)) hx)
      (mem_uppercase (hlt v (by simp)) hy)
    refine (RegularExpression.mul_rmatch_iff _ _ _).2 ⟨[c, d], ['-', u, v], rfl, hlanguage, ?_⟩
    refine (RegularExpression.add_rmatch_iff _ _ _).2 (.inr ?_)
    exact (RegularExpression.mul_rmatch_iff _ _ _).2
      ⟨['-'], [u, v], rfl, (RegularExpression.char_rmatch_iff _ _).2 rfl, hregion⟩
  · cases h

end Texts

end EraseMe.Registry
