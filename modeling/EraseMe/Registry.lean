import EraseMe.Library.Octets
import EraseMe.Library.Serde

/-!
# `registry`: brokers and their filter

A broker document names its jurisdictions and laws and lists its opt-out channels, the preferred
one first.  `filterBrokers` keeps the brokers a plan asks for, in the order of the registry; a
filter that is absent or empty admits every broker, except that the status defaults to `active`.
-/

namespace EraseMe.Registry

/-! ### Errors -/

/-- A name of the file system. -/
abbrev OsString := List UInt8

abbrev Path := List OsString

def osString (s : String) : OsString := Utf8.encode s

/-- Why a file cannot be used. -/
inductive IoError
  | notFound
  | alreadyExists
  | notADirectory
  | other (message : String)
  deriving DecidableEq, Repr

/-- The text of the error. -/
def IoError.text : IoError → String
  | notFound => "No such file or directory (os error 2)"
  | alreadyExists => "File exists (os error 17)"
  | notADirectory => "Not a directory (os error 20)"
  | other message => message

/-- Why a document is refused. -/
inductive RegistryError
  | io (path : Path) (source : IoError)
  | yaml (error : String)
  | validation (field message : String)
  deriving DecidableEq, Repr

/-! ### Names of the contract -/

/-- What a broker does. -/
inductive Category
  | peopleSearch
  | marketing
  | credit
  | analytics
  | backgroundCheck
  | socialMedia
  | other
  deriving DecidableEq, Repr

/-- Where a broker is. -/
inductive Jurisdiction
  | at
  | ch
  | de
  | dk
  | eu
  | fi
  | fr
  | gb
  | ie
  | il
  | lu
  | nl
  | no
  | se
  | uk
  | us
  deriving DecidableEq, Repr

/-- The laws. -/
inductive Law
  | gdpr
  | ccpa
  | cpra
  | lgpd
  | pipeda
  deriving DecidableEq, Repr

/-- How urgent a broker is. -/
inductive Priority
  | high
  | medium
  | low
  deriving DecidableEq, Repr

/-- Whether a broker is there. -/
inductive Status
  | active
  | deprecated
  | merged
  | outOfBusiness
  deriving DecidableEq, Repr

/-- The letter templates. -/
inductive Template
  | ccpaDeletion
  | gdprArt17
  deriving DecidableEq, Repr

/-- The identity fields a broker may require. -/
inductive RequiredField
  | fullName
  | email
  | address
  | dateOfBirth
  | state
  deriving DecidableEq, Repr

/-- The captchas. -/
inductive CaptchaType
  | recaptchaV2
  | recaptchaV3
  | hcaptcha
  | turnstile
  deriving DecidableEq, Repr

/-- Who solves captchas. -/
inductive CaptchaProvider
  | capsolver
  | twoCaptcha
  | anticaptcha
  deriving DecidableEq, Repr

/-- The name in documents. -/
def Jurisdiction.registryName : Jurisdiction → String
  | .at => "AT"
  | .ch => "CH"
  | .de => "DE"
  | .dk => "DK"
  | .eu => "EU"
  | .fi => "FI"
  | .fr => "FR"
  | .gb => "GB"
  | .ie => "IE"
  | .il => "IL"
  | .lu => "LU"
  | .nl => "NL"
  | .no => "NO"
  | .se => "SE"
  | .uk => "UK"
  | .us => "US"

/-- The name in documents. -/
def Law.registryName : Law → String
  | gdpr => "GDPR"
  | ccpa => "CCPA"
  | cpra => "CPRA"
  | lgpd => "LGPD"
  | pipeda => "PIPEDA"

/-- The name in documents. -/
def Priority.registryName : Priority → String
  | high => "high"
  | medium => "medium"
  | low => "low"

/-- The name in documents. -/
def Category.registryName : Category → String
  | peopleSearch => "people-search"
  | marketing => "marketing"
  | credit => "credit"
  | analytics => "analytics"
  | backgroundCheck => "background-check"
  | socialMedia => "social-media"
  | other => "other"

/-- The name in documents. -/
def Status.registryName : Status → String
  | active => "active"
  | deprecated => "deprecated"
  | merged => "merged"
  | outOfBusiness => "out-of-business"

/-- The name in documents. -/
def Template.registryName : Template → String
  | ccpaDeletion => "ccpa-deletion"
  | gdprArt17 => "gdpr-art17"

/-- The name in documents. -/
def RequiredField.registryName : RequiredField → String
  | fullName => "full_name"
  | email => "email"
  | address => "address"
  | dateOfBirth => "date_of_birth"
  | state => "state"

/-- The name in documents. -/
def CaptchaType.registryName : CaptchaType → String
  | recaptchaV2 => "recaptcha-v2"
  | recaptchaV3 => "recaptcha-v3"
  | hcaptcha => "hcaptcha"
  | turnstile => "turnstile"

/-- The name in documents. -/
def CaptchaProvider.registryName : CaptchaProvider → String
  | capsolver => "capsolver"
  | twoCaptcha => "2captcha"
  | anticaptcha => "anticaptcha"

/-! ### Brokers -/

/-- A captcha of a form. -/
structure SolveCaptcha where
  captchaType : CaptchaType
  siteKey : String
  provider : Option CaptchaProvider := none
  action : Option String := none
  minScore : Option F64 := none
  isInvisible : Option Bool := none
  deriving DecidableEq, Repr

/-- One step of a web form. -/
structure FormStep where
  goto : Option String := none
  fill : Option (BTreeMap String String) := none
  select : Option (BTreeMap String String) := none
  click : Option String := none
  waitFor : Option String := none
  waitSeconds : Option F64 := none
  screenshot : Option String := none
  assertText : Option String := none
  solveCaptcha : Option SolveCaptcha := none
  deriving DecidableEq, Repr

/-- A web form, step by step. -/
structure FormSpec where
  steps : List FormStep
  timeoutSeconds : Option F64 := none
  rateLimitDelay : Option F64 := none
  headless : Option Bool := none
  deriving DecidableEq, Repr

instance neZero_u8 : NeZero (2 ^ 8) := ⟨by decide⟩

instance neZero_u32 : NeZero (2 ^ 32) := ⟨by decide⟩

/-- What both kinds of channel may carry. -/
structure ChannelOptions where
  template : Option Template := none
  locale : Option String := none
  requiredFields : Option (List RequiredField) := none
  supportsSuppression : Option Bool := none
  expectedResponseDays : Option (Fin (2 ^ 32)) := none
  disabled : Option Bool := none
  deriving DecidableEq, Repr

/-- An opt-out channel. -/
inductive Channel
  | email (endpoint : String) (options : ChannelOptions)
  | webForm (url : String) (formSpec : FormSpec) (options : ChannelOptions)
  deriving DecidableEq, Repr

/-- Keywords of the replies of a broker. -/
structure Verification where
  ackKeywords : Option (List String) := none
  rejectionKeywords : Option (List String) := none
  humanRequiredKeywords : Option (List String) := none
  deriving DecidableEq, Repr

/-- A registry broker document. -/
structure Broker where
  id : String
  name : String
  website : String
  category : Category
  jurisdictions : List Jurisdiction
  laws : List Law
  dataSensitivity : Fin (2 ^ 8) := 3
  priority : Priority
  optOut : List Channel
  verification : Option Verification := none
  disabled : Option Bool := none
  addedDate : Option String := none
  source : Option String := none
  status : Status := .active
  notes : Option String := none
  deriving DecidableEq, Repr

/-! ### The filter -/

/-- Which brokers are meant. -/
structure BrokerFilter where
  jurisdiction : Option String := none
  law : Option String := none
  priority : Option String := none
  category : Option String := none
  includeDisabled : Bool := false
  status : Option String := none
  includeInactive : Bool := false
  deriving DecidableEq, Repr

/-- A value is met by any of the names; an absent or empty value asks for nothing. -/
def wanted (value : Option String) (names : List String) : Bool :=
  value.all fun name => name = "" ∨ name ∈ names

/-- The status a filter asks for. -/
def BrokerFilter.expectedStatus (filter : BrokerFilter) : String :=
  (filter.status.filter (· ≠ "")).getD "active"

/-- A broker is meant. -/
def BrokerFilter.admits (filter : BrokerFilter) (broker : Broker) : Bool :=
  (filter.includeDisabled ∨ broker.disabled ≠ some true) ∧
    wanted filter.jurisdiction (broker.jurisdictions.map Jurisdiction.registryName) ∧
    wanted filter.law (broker.laws.map Law.registryName) ∧
    wanted filter.priority [broker.priority.registryName] ∧
    wanted filter.category [broker.category.registryName] ∧
    (filter.includeInactive ∨ broker.status.registryName = filter.expectedStatus)

/-- The brokers that are meant. -/
def filterBrokers (brokers : List Broker) (filter : BrokerFilter) : List Broker :=
  brokers.filter filter.admits

end EraseMe.Registry
