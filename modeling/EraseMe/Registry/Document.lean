import EraseMe.Library.Text
import EraseMe.Registry

/-!
# `registry::validate`: decoding a broker document

`fromYaml` takes the text of a document to a broker, step by step as the source does: the tokens of
the text are bounded, the value is decoded and bounded again, nulls and unknown keys are refused,
the structures of `registry::model` are decoded, and the checks of `validateBroker` follow.

The tokens and the value of a text come from YAML libraries (`YamlReader`).
-/

namespace EraseMe.Registry

open Serde

/-! ### Limits and keys -/

def maxDocumentBytes : ℕ := 2 ^ 20

def maxYamlNodes : ℕ := 16384

def maxYamlDepth : ℕ := 64

def brokerKeys : List String :=
  ["id", "name", "website", "category", "jurisdictions", "laws", "data_sensitivity", "priority",
    "opt_out", "verification", "disabled", "added_date", "source", "status", "notes"]

def commonChannelKeys : List String :=
  ["type", "template", "locale", "required_fields", "supports_suppression",
    "expected_response_days", "disabled"]

def emailChannelKeys : List String := ["endpoint"]

def webFormChannelKeys : List String := ["url", "form_spec"]

def formSpecKeys : List String := ["steps", "timeout_seconds", "rate_limit_delay", "headless"]

def formStepKeys : List String :=
  ["goto", "fill", "select", "click", "wait_for", "wait_seconds", "screenshot", "assert_text",
    "solve_captcha"]

def captchaKeys : List String :=
  ["type", "site_key", "provider", "action", "min_score", "is_invisible"]

/-! ### The tokens of a document -/

/-- The tokens of a reader. -/
inductive Token
  | streamStart
  | streamEnd
  | documentStart
  | documentEnd
  | alias
  | anchor
  | blockSequenceStart
  | blockMappingStart
  | flowSequenceStart
  | flowMappingStart
  | scalar
  | blockEnd
  | flowSequenceEnd
  | flowMappingEnd
  | versionDirective
  | tagDirective
  | blockEntry
  | flowEntry
  | key
  | value
  | tag
  deriving DecidableEq, Repr

/-- The YAML library. -/
structure YamlReader where
  /-- The tokens of a text, and the error of the scanner. -/
  scan : String → List Token × Option String
  fromStr : String → Except String Yaml
  /-- The text of an error. -/
  describe : DecodeError → String

/-- What was seen of a text. -/
structure YamlPreflight where
  documents : ℕ := 0
  nodes : ℕ := 0
  depth : ℕ := 0
  hasContent : Bool := false
  afterDocumentEnd : Bool := false

/-- An error of the whole. -/
def documentError (message : String) : RegistryError := .validation "document" message

/-- Count a node. -/
def noteNode (state : YamlPreflight) : Except RegistryError YamlPreflight :=
  if state.afterDocumentEnd then
    .error (documentError "content after explicit YAML document end is not allowed")
  else if maxYamlNodes < state.nodes + 1 then
    .error (documentError "YAML node budget exceeded")
  else
    .ok { state with
      documents := if state.documents = 0 then 1 else state.documents
      hasContent := true
      nodes := state.nodes + 1 }

/-- One turn of the loop of `preflight_source`. -/
def preflightToken (state : YamlPreflight) : Token → Except RegistryError YamlPreflight
  | .streamStart | .streamEnd => .ok state
  | .documentStart =>
      if 0 < state.documents ∨ state.hasContent then
        .error (documentError "multiple YAML documents are not allowed")
      else .ok { state with documents := 1, afterDocumentEnd := false, hasContent := false }
  | .documentEnd =>
      if state.hasContent = false then
        .error (documentError "empty YAML documents are not allowed")
      else
        .ok { state with
          documents := if state.documents = 0 then 1 else state.documents
          afterDocumentEnd := true }
  | .alias | .anchor => .error (documentError "YAML anchors and aliases are not allowed")
  | .blockSequenceStart | .blockMappingStart | .flowSequenceStart | .flowMappingStart => do
      let state ← noteNode state
      if maxYamlDepth < state.depth + 1 then .error (documentError "YAML depth budget exceeded")
      else .ok { state with depth := state.depth + 1 }
  | .scalar => noteNode state
  | .blockEnd | .flowSequenceEnd | .flowMappingEnd =>
      if state.depth = 0 then .error (documentError "YAML nesting is unbalanced")
      else .ok { state with depth := state.depth - 1 }
  | .versionDirective | .tagDirective | .blockEntry | .flowEntry | .key | .value | .tag =>
      if state.afterDocumentEnd then
        .error (documentError "content after explicit YAML document end is not allowed")
      else .ok state

/-- Check a text by its tokens. -/
def preflightSource (reader : YamlReader) (source : String) : Except RegistryError Unit := do
  if maxDocumentBytes < source.utf8ByteSize then
    .error (documentError s!"exceeds {maxDocumentBytes} bytes")
  else do
    let (tokens, scanError) := reader.scan source
    let state ← tokens.foldlM preflightToken {}
    match scanError with
    | some error => .error (documentError error)
    | none =>
        if state.depth ≠ 0 then .error (documentError "YAML nesting is unbalanced")
        else if state.documents ≠ 1 ∨ state.hasContent = false then
          .error (documentError "exactly one non-empty YAML document is required")
        else .ok ()

/-! ### Bounds of a value -/

/-- What is below a value, the last first. -/
def below : Yaml → List Yaml
  | .mapping entries => (entries.flatMap fun entry => [entry.1, entry.2]).reverse
  | .sequence items => items.reverse
  | .tagged _ value => [value]
  | _ => []

/-- The loop of `check_value_budget`: how many nodes may still come, and the stack. -/
def budgetLoop : ℕ → List (Yaml × ℕ) → Except RegistryError ℕ
  | left, [] => .ok (maxYamlNodes - left)
  | 0, _ :: _ => .error (documentError "YAML node budget exceeded")
  | left + 1, (value, depth) :: stack =>
      if maxYamlDepth < depth then .error (documentError "YAML depth budget exceeded")
      else budgetLoop left ((below value).map (·, depth + 1) ++ stack)

/-- Check the size of a value. -/
def checkValueBudget (root : Yaml) : Except RegistryError ℕ := budgetLoop maxYamlNodes [(root, 1)]

/-- What is below a value with its path, the last first. -/
def belowAt (path : String) : Yaml → List (Yaml × String)
  | .mapping entries =>
      (entries.flatMap fun (key, value) =>
        let keyPath := match key.asStr with
          | some key => "$." ++ key
          | none => "$[key]"
        [(key, keyPath ++ "[name]"), (value, keyPath)]).reverse
  | .sequence items => (items.zipIdx.map fun (value, index) => (value, s!"{path}[{index}]")).reverse
  | .tagged _ value => [(value, path)]
  | _ => []

theorem nodes_belowAt (path : String) (v : Yaml) :
    ((belowAt path v).map (·.1.nodes)).sum < v.nodes := by
  cases v with
  | null | bool | int | float | string => simp [belowAt, Yaml.nodes]
  | tagged tag value => simp [belowAt, Yaml.nodes]
  | sequence items =>
    have hitems (k : ℕ) : ((items.zipIdx k).map fun item => item.1.nodes).sum =
        Yaml.nodesItems items := by
      induction items generalizing k with
      | nil => rfl
      | cons v items ih => rw [List.zipIdx_cons, List.map_cons, List.sum_cons, ih]; rfl
    rw [belowAt, List.map_reverse, List.sum_reverse, List.map_map, Yaml.nodes]
    exact Nat.lt_succ_of_le (hitems 0).le
  | mapping entries =>
    rw [belowAt, List.map_reverse, List.sum_reverse, Yaml.nodes]
    refine Nat.lt_succ_of_le (le_of_eq ?_)
    induction entries with
    | nil => rfl
    | cons entry entries ih =>
      rw [List.flatMap_cons, List.map_append, List.sum_append, ih]
      simp [Yaml.nodesEntries]

/-- The loop of `reject_explicit_nulls`. -/
def nullLoop : List (Yaml × String) → Except RegistryError Unit
  | [] => .ok ()
  | (.null, path) :: _ =>
      .error (.validation path "explicit YAML null is not allowed; omit the field instead")
  | (value, path) :: stack => nullLoop (belowAt path value ++ stack)
termination_by stack => (stack.map (·.1.nodes)).sum
decreasing_by
  rw [List.map_append, List.sum_append, List.map_cons, List.sum_cons]
  exact Nat.add_lt_add_right (nodes_belowAt path value) _

/-- No value is `null`. -/
def rejectExplicitNulls (root : Yaml) : Except RegistryError Unit := nullLoop [(root, "$")]

/-! ### Unknown keys -/

/-- Only known keys. -/
def validateObjectKeys (raw : Yaml) (allowed : List String) (boundary : String) :
    Except RegistryError Unit :=
  match raw.asMapping with
  | none => .ok ()
  | some entries => entries.forM fun (key, _) =>
      match key.asStr with
      | none => .error (.validation boundary "object keys must be strings")
      | some key =>
          if key ∈ allowed then .ok ()
          else .error (.validation boundary ("unknown field " ++ Text.debugStr key))

/-- Only known keys in a form. -/
def validateFormSpecKeys (raw : Yaml) : Except RegistryError Unit := do
  validateObjectKeys raw formSpecKeys "form_spec"
  match raw.asMapping.bind fun entries => (Yaml.get entries "steps").bind Yaml.asSequence with
  | none => .ok ()
  | some steps => steps.forM fun step => do
      validateObjectKeys step formStepKeys "form_step"
      match step.asMapping.bind fun entries => Yaml.get entries "solve_captcha" with
      | none => .ok ()
      | some captcha => validateObjectKeys captcha captchaKeys "solve_captcha"

/-- The turn of `validate_channel_keys` for one channel. -/
def validateOneChannelKeys (channel : Yaml) : Except RegistryError Unit :=
  match channel.asMapping with
  | none => .ok ()
  | some entries => do
      let kind := ((Yaml.get entries "type").bind Yaml.asStr).getD ""
      let own := if kind = "email" then emailChannelKeys
        else if kind = "web_form" then webFormChannelKeys
        else []
      validateObjectKeys channel (commonChannelKeys ++ own) "channel"
      match Yaml.get entries "form_spec" with
      | none => .ok ()
      | some formSpec => if kind = "web_form" then validateFormSpecKeys formSpec else .ok ()

/-- Only known keys in channels. -/
def validateChannelKeys (raw : Yaml) : Except RegistryError Unit :=
  match raw.asMapping.bind fun entries => (Yaml.get entries "opt_out").bind Yaml.asSequence with
  | none => .ok ()
  | some channels => channels.forM validateOneChannelKeys

/-! ### The structures -/

/-- The variants of an enumeration by their names. -/
def named {α : Type} (name : α → String) (values : List α) : List (String × α) :=
  values.map fun a => (name a, a)

/-- Read a category. -/
def Category.decode : Decoder Category :=
  variant (named registryName
    [peopleSearch, marketing, credit, analytics, backgroundCheck, socialMedia, other])

/-- Read a jurisdiction. -/
def Jurisdiction.decode : Decoder Jurisdiction :=
  variant (named registryName
    [.at, .ch, .de, .dk, .eu, .fi, .fr, .gb, .ie, .il, .lu, .nl, .no, .se, .uk, .us])

/-- Read a law. -/
def Law.decode : Decoder Law := variant (named registryName [gdpr, ccpa, cpra, lgpd, pipeda])

/-- Read a priority. -/
def Priority.decode : Decoder Priority := variant (named registryName [high, medium, low])

/-- Read a status. -/
def Status.decode : Decoder Status :=
  variant (named registryName [active, deprecated, merged, outOfBusiness])

/-- Read a template. -/
def Template.decode : Decoder Template := variant (named registryName [ccpaDeletion, gdprArt17])

/-- Read a field name. -/
def RequiredField.decode : Decoder RequiredField :=
  variant (named registryName [fullName, email, address, dateOfBirth, state])

/-- Read a captcha. -/
def CaptchaType.decode : Decoder CaptchaType :=
  variant (named registryName [recaptchaV2, recaptchaV3, hcaptcha, turnstile])

/-- Read a solver. -/
def CaptchaProvider.decode : Decoder CaptchaProvider :=
  variant (named registryName [capsolver, twoCaptcha, anticaptcha])

/-- The kinds of channels. -/
inductive ChannelType
  | email
  | webForm
  deriving DecidableEq, Repr

/-- The name in documents. -/
def ChannelType.registryName : ChannelType → String
  | email => "email"
  | webForm => "web_form"

/-- Read a kind. -/
def ChannelType.decode : Decoder ChannelType := variant (named registryName [email, webForm])

/-- The fields of a captcha. -/
def SolveCaptcha.fields : List Field :=
  [field "type" CaptchaType.decode, field "site_key" string,
    field "provider" (option CaptchaProvider.decode), field "action" (option string),
    field "min_score" (option f64), field "is_invisible" (option bool)]

/-- Read a captcha. -/
def SolveCaptcha.decode : Decoder SolveCaptcha := fun v => do
  let seen ← struct fields v
  let captchaType ← required "type" CaptchaType.decode seen
  let siteKey ← required "site_key" string seen
  let provider ← optional "provider" CaptchaProvider.decode seen
  let action ← optional "action" string seen
  let minScore ← optional "min_score" f64 seen
  let isInvisible ← optional "is_invisible" bool seen
  return { captchaType, siteKey, provider, action, minScore, isInvisible }

/-- The fields of a step. -/
def FormStep.fields : List Field :=
  [field "goto" (option string), field "fill" (option stringMap),
    field "select" (option stringMap), field "click" (option string),
    field "wait_for" (option string), field "wait_seconds" (option f64),
    field "screenshot" (option string), field "assert_text" (option string),
    field "solve_captcha" (option SolveCaptcha.decode)]

/-- Read a step. -/
def FormStep.decode : Decoder FormStep := fun v => do
  let seen ← struct fields v
  let goto ← optional "goto" string seen
  let fill ← optional "fill" stringMap seen
  let select ← optional "select" stringMap seen
  let click ← optional "click" string seen
  let waitFor ← optional "wait_for" string seen
  let waitSeconds ← optional "wait_seconds" f64 seen
  let screenshot ← optional "screenshot" string seen
  let assertText ← optional "assert_text" string seen
  let solveCaptcha ← optional "solve_captcha" SolveCaptcha.decode seen
  return { goto, fill, select, click, waitFor, waitSeconds, screenshot, assertText, solveCaptcha }

/-- The fields of a form. -/
def FormSpec.fields : List Field :=
  [field "steps" (sequence FormStep.decode), field "timeout_seconds" (option f64),
    field "rate_limit_delay" (option f64), field "headless" (option bool)]

/-- Read a form. -/
def FormSpec.decode : Decoder FormSpec := fun v => do
  let seen ← struct fields v
  let steps ← required "steps" (sequence FormStep.decode) seen
  let timeoutSeconds ← optional "timeout_seconds" f64 seen
  let rateLimitDelay ← optional "rate_limit_delay" f64 seen
  let headless ← optional "headless" bool seen
  return { steps, timeoutSeconds, rateLimitDelay, headless }

/-- A channel before its kind is checked. -/
structure ChannelWire where
  channelType : ChannelType
  endpoint : Option String
  url : Option String
  formSpec : Option FormSpec
  options : ChannelOptions

/-- The fields of a channel. -/
def ChannelWire.fields : List Field :=
  [field "type" ChannelType.decode, field "endpoint" (option string), field "url" (option string),
    field "form_spec" (option FormSpec.decode), field "template" (option Template.decode),
    field "locale" (option string),
    field "required_fields" (option (sequence RequiredField.decode)),
    field "supports_suppression" (option bool),
    field "expected_response_days" (option (unsigned 32)), field "disabled" (option bool)]

/-- Read a channel. -/
def ChannelWire.decode : Decoder ChannelWire := fun v => do
  let seen ← struct fields v
  let channelType ← required "type" ChannelType.decode seen
  let endpoint ← optional "endpoint" string seen
  let url ← optional "url" string seen
  let formSpec ← optional "form_spec" FormSpec.decode seen
  let template ← optional "template" Template.decode seen
  let locale ← optional "locale" string seen
  let requiredFields ← optional "required_fields" (sequence RequiredField.decode) seen
  let supportsSuppression ← optional "supports_suppression" bool seen
  let expectedResponseDays ← optional "expected_response_days" (unsigned 32) seen
  let disabled ← optional "disabled" bool seen
  return {
    channelType, endpoint, url, formSpec
    options := {
      template, locale, requiredFields, supportsSuppression, expectedResponseDays, disabled } }

/-- A channel, if it is whole. -/
def ChannelWire.intoModel (wire : ChannelWire) : Except String Channel :=
  match wire.channelType with
  | .email =>
      match wire.endpoint with
      | none => .error "email channel requires endpoint"
      | some endpoint =>
          if wire.url.isSome ∨ wire.formSpec.isSome then
            .error "email channel must not carry web_form fields"
          else .ok (.email endpoint wire.options)
  | .webForm =>
      match wire.url, wire.formSpec with
      | some url, some formSpec =>
          if wire.endpoint.isSome then .error "web_form channel must not carry email fields"
          else .ok (.webForm url formSpec wire.options)
      | _, _ => .error "web_form channel requires url and form_spec"

/-- The fields of the keywords. -/
def Verification.fields : List Field :=
  [field "ack_keywords" (option (sequence string)),
    field "rejection_keywords" (option (sequence string)),
    field "human_required_keywords" (option (sequence string))]

/-- Read the keywords. -/
def Verification.decode : Decoder Verification := fun v => do
  let seen ← struct fields v
  let ackKeywords ← optional "ack_keywords" (sequence string) seen
  let rejectionKeywords ← optional "rejection_keywords" (sequence string) seen
  let humanRequiredKeywords ← optional "human_required_keywords" (sequence string) seen
  return { ackKeywords, rejectionKeywords, humanRequiredKeywords }

/-- A document before its channels are checked: a broker without channels, and them. -/
structure BrokerWire where
  broker : Broker
  optOut : List ChannelWire

/-- The fields of a broker. -/
def BrokerWire.fields : List Field :=
  [field "id" string, field "name" string, field "website" string,
    field "category" Category.decode, field "jurisdictions" (sequence Jurisdiction.decode),
    field "laws" (sequence Law.decode), field "data_sensitivity" (unsigned 8),
    field "priority" Priority.decode, field "opt_out" (sequence ChannelWire.decode),
    field "verification" (option Verification.decode), field "disabled" (option bool),
    field "added_date" (option string), field "source" (option string),
    field "status" Status.decode, field "notes" (option string)]

/-- Read a broker. -/
def BrokerWire.decode : Decoder BrokerWire := fun v => do
  let seen ← struct fields v
  let id ← required "id" string seen
  let name ← required "name" string seen
  let website ← required "website" string seen
  let category ← required "category" Category.decode seen
  let jurisdictions ← required "jurisdictions" (sequence Jurisdiction.decode) seen
  let laws ← required "laws" (sequence Law.decode) seen
  let dataSensitivity ← withDefault 3 "data_sensitivity" (unsigned 8) seen
  let priority ← required "priority" Priority.decode seen
  let optOut ← required "opt_out" (sequence ChannelWire.decode) seen
  let verification ← optional "verification" Verification.decode seen
  let disabled ← optional "disabled" bool seen
  let addedDate ← optional "added_date" string seen
  let source ← optional "source" string seen
  let status ← withDefault .active "status" Status.decode seen
  let notes ← optional "notes" string seen
  return {
    broker := {
      id, name, website, category, jurisdictions, laws, dataSensitivity, priority, verification
      disabled, addedDate, source, status, notes
      optOut := [] }
    optOut }

/-- A broker, if it is whole. -/
def BrokerWire.intoModel (wire : BrokerWire) : Except String Broker := do
  let optOut ← wire.optOut.mapM ChannelWire.intoModel
  return { wire.broker with optOut }

/-! ### Checks of texts -/

/-- An address of the web. -/
def validUri (field value : String) : Except RegistryError Unit :=
  let error (message : String) : Except RegistryError Unit := .error (.validation field message)
  if value = "" then error "is required"
  else if value.toList.any Text.isWhitespace then
    error (Text.debugStr value ++ " contains whitespace")
  else if value.toList.any Text.isControl then
    error (Text.debugStr value ++ " contains a control character")
  else
    match (Text.stripPrefix "https://".toList value.toList).or
        (Text.stripPrefix "http://".toList value.toList) with
    | none => error (Text.debugStr value ++ " is not an absolute http(s) URI")
    | some rest =>
        if rest.takeWhile (fun c => c ∉ ['/', '?', '#']) = [] then
          error (Text.debugStr value ++ " has no host")
        else .ok ()

/-- It looks like an address. -/
def validEmail (value : String) : Bool :=
  match Text.rsplitOnce '@' value.toList with
  | none => false
  | some (localPart, domain) =>
      localPart ≠ [] ∧ domain ≠ [] ∧ ¬ value.toList.any Text.isWhitespace ∧ '@' ∉ localPart ∧
        domain.head? ≠ some '.' ∧ domain.getLast? ≠ some '.'

/-- The number that ASCII digits write. -/
def digitsValue (digits : List UInt8) : ℕ :=
  digits.foldl (fun n b => n * 10 + (b.toNat - 48)) 0

def isAsciiDigit (b : UInt8) : Bool := 0x30 ≤ b ∧ b ≤ 0x39

def isAsciiLowercase (b : UInt8) : Bool := 0x61 ≤ b ∧ b ≤ 0x7A

def isAsciiUppercase (b : UInt8) : Bool := 0x41 ≤ b ∧ b ≤ 0x5A

/-- It looks like a date. -/
def isIsoDate (value : String) : Bool :=
  match Utf8.encode value with
  | [a, b, c, d, e, f, g, h, i, j] =>
      e = 0x2D ∧ h = 0x2D ∧ [a, b, c, d, f, g, i, j].all isAsciiDigit ∧
        let year := digitsValue [a, b, c, d]
        let month := digitsValue [f, g]
        let day := digitsValue [i, j]
        let leap := year % 4 = 0 ∧ (year % 100 ≠ 0 ∨ year % 400 = 0)
        let days := if month = 2 then if leap then 29 else 28
          else if month ∈ [4, 6, 9, 11] then 30
          else 31
        1 ≤ month ∧ month ≤ 12 ∧ 1 ≤ day ∧ day ≤ days
  | _ => false

/-- It looks like a locale. -/
def isLocale (value : String) : Bool :=
  match Utf8.encode value with
  | [a, b] => isAsciiLowercase a ∧ isAsciiLowercase b
  | [a, b, c, d, e] =>
      c = 0x2D ∧ isAsciiLowercase a ∧ isAsciiLowercase b ∧ isAsciiUppercase d ∧ isAsciiUppercase e
  | _ => false

/-- The letters and digits of ASCII. -/
def lowercase : List Char := "abcdefghijklmnopqrstuvwxyz".toList

def uppercase : List Char := "ABCDEFGHIJKLMNOPQRSTUVWXYZ".toList

def digits : List Char := "0123456789".toList

def selectorStart : List Char := lowercase ++ uppercase ++ ['[', '#', '.', '*']

def selectorRest : List Char :=
  lowercase ++ uppercase ++ digits ++
    ['[', ']', '=', '.', '\'', '"', '_', ':', '#', '-', ' ', '*', '>', ',', '~', '+']

/-- It looks like a selector. -/
def isSelector (value : String) : Bool :=
  match value.toList with
  | [] => false
  | first :: rest => first ∈ selectorStart ∧ rest.all (· ∈ selectorRest)

/-! ### Checks of a broker -/

def prefixed (outer : String) : RegistryError → RegistryError
  | .validation inner message => .validation (outer ++ "." ++ inner) message
  | other => other

/-- Check the elements of a list in order, with their position in the errors. -/
def validateEach {α : Type} (label : String) (check : α → Except RegistryError Unit) :
    ℕ → List α → Except RegistryError Unit
  | _, [] => .ok ()
  | index, a :: rest => do
      (check a).mapError (prefixed s!"{label}[{index}]")
      validateEach label check (index + 1) rest

/-- A condition that is refused. -/
def refuse (p : Prop) [Decidable p] (field message : String) : Except RegistryError Unit :=
  if p then .error (.validation field message) else .ok ()

/-- Whether a number that is there is out of range. -/
def outside (x : Option F64) (low : F64 → Bool) : Bool := x.any fun x => !x.isFinite || low x

/-- Check a captcha. -/
def validateCaptcha (captcha : SolveCaptcha) : Except RegistryError Unit := do
  refuse ((Utf8.encode captcha.siteKey).length < 8) "solve_captcha.site_key"
    "must be at least 8 chars"
  refuse (outside captcha.minScore fun x => x.lt 0 || !x.le 1) "solve_captcha.min_score"
    "out of range 0..1"

/-- The actions of a step that are texts, in the order of their checks. -/
def FormStep.texts (step : FormStep) : List (String × Option String) :=
  [("goto", step.goto), ("click", step.click), ("wait_for", step.waitFor),
    ("screenshot", step.screenshot), ("assert_text", step.assertText)]

def FormStep.present (step : FormStep) : Bool :=
  step.goto.any (· ≠ "") ∨ step.fill.any (·.entries ≠ []) ∨ step.select.any (·.entries ≠ []) ∨
    step.click.any (· ≠ "") ∨ step.waitFor.any (· ≠ "") ∨ step.waitSeconds.isSome ∨
    step.screenshot.any (· ≠ "") ∨ step.assertText.any (· ≠ "") ∨ step.solveCaptcha.isSome

/-- Check selectors. -/
def validateSelectors (selectors : Option (BTreeMap String String)) : Except RegistryError Unit :=
  match selectors with
  | none => .ok ()
  | some selectors => selectors.entries.forM fun (selector, _) =>
      refuse (isSelector selector = false) "selector"
        (Text.debugStr selector ++ " does not look like a CSS selector")

/-- Check a step. -/
def validateFormStep (step : FormStep) : Except RegistryError Unit := do
  step.texts.forM fun (field, value) =>
    refuse (value = some "") field "must not be empty when present"
  refuse (step.present = false) "step" "must contain at least 1 action"
  refuse (outside step.waitSeconds fun x => x.lt 0) "wait_seconds" "must be >= 0"
  validateSelectors step.fill
  validateSelectors step.select
  match step.solveCaptcha with
  | none => .ok ()
  | some captcha => validateCaptcha captcha

/-- Check a form. -/
def validateFormSpec (formSpec : FormSpec) : Except RegistryError Unit := do
  refuse (formSpec.steps = []) "form_spec" "requires at least 1 step"
  refuse (outside formSpec.timeoutSeconds fun x => x.lt 1) "timeout_seconds" "must be >= 1"
  refuse (outside formSpec.rateLimitDelay fun x => x.lt 0) "rate_limit_delay" "must be >= 0"
  validateEach "steps" validateFormStep 0 formSpec.steps

/-- Check a locale. -/
def validateLocale : Option String → Except RegistryError Unit
  | none => .ok ()
  | some locale =>
      refuse (isLocale locale = false) "locale"
        (Text.debugStr locale ++ " does not match RFC 5646 pattern")

/-- What both kinds of channel are checked for. -/
def validateOptions (options : ChannelOptions) : Except RegistryError Unit := do
  validateLocale options.locale
  refuse (options.expectedResponseDays.any (· < 1)) "expected_response_days" "must be >= 1"

/-- Check a channel. -/
def validateChannel : Channel → Except RegistryError Unit
  | .email endpoint options => do
      refuse (validEmail endpoint = false) "endpoint"
        (Text.debugStr endpoint ++ " is not a valid email")
      validateOptions options
  | .webForm url formSpec options => do
      validUri "url" url
      validateFormSpec formSpec
      validateOptions options

/-- Check a date. -/
def validateAddedDate : Option String → Except RegistryError Unit
  | none => .ok ()
  | some addedDate =>
      refuse (isIsoDate addedDate = false) "added_date"
        (Text.debugStr addedDate ++ " is not ISO 8601 date")

/-- The bytes of an identifier. -/
def isIdByte (b : UInt8) : Bool := isAsciiLowercase b ∨ isAsciiDigit b ∨ b = 0x2D

/-- Check a broker against the name of its file. -/
def validateBroker (fileStem : String) (broker : Broker) : Except RegistryError Broker := do
  refuse (broker.id ≠ fileStem) "id"
    (Text.debugStr broker.id ++ " does not equal file stem " ++ Text.debugStr fileStem)
  refuse (broker.id = "" ∨ (Utf8.encode broker.id).all isIdByte = false) "id"
    "does not match ^[a-z0-9-]+$"
  refuse (Text.trim broker.name.toList = []) "name" "is required"
  validUri "website" broker.website
  refuse (broker.jurisdictions = []) "jurisdictions" "must have at least 1 entry"
  refuse (broker.laws = []) "laws" "must have at least 1 entry"
  refuse (¬ (1 ≤ broker.dataSensitivity ∧ broker.dataSensitivity ≤ 5)) "data_sensitivity"
    "out of range 1..5"
  refuse (broker.optOut = []) "opt_out" "must have at least 1 channel"
  validateEach "opt_out" validateChannel 0 broker.optOut
  validateAddedDate broker.addedDate
  return broker

/-! ### The whole -/

/-- `decode_with_metrics`, with the number of nodes. -/
def decodeWithMetrics (reader : YamlReader) (fileStem source : String) :
    Except RegistryError (Broker × ℕ) := do
  preflightSource reader source
  let raw ← (reader.fromStr source).mapError .yaml
  let nodes ← checkValueBudget raw
  rejectExplicitNulls raw
  validateObjectKeys raw brokerKeys "top-level"
  validateChannelKeys raw
  let wire ← (BrokerWire.decode raw).mapError fun error => .yaml (reader.describe error)
  let broker ← wire.intoModel.mapError (.validation "channel")
  let broker ← validateBroker fileStem broker
  return (broker, nodes)

/-- `Broker::from_yaml`. -/
def Broker.fromYaml (reader : YamlReader) (fileStem source : String) :
    Except RegistryError Broker :=
  (decodeWithMetrics reader fileStem source).map Prod.fst

end EraseMe.Registry
