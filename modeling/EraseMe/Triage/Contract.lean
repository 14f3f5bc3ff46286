import EraseMe.Email.Subject
import EraseMe.Jsonorder
import EraseMe.Library.Utf8Text

/-!
# `triage_contract`: the answer of a classifier

`parseClassificationResponse` reads the answer of a language model: an object, in a code fence or
not, with a label, a confidence, a summary and further fields.  What is missing or of another type
takes its default, and what is no object is answered by the default result.

The reader of JSON texts is that of `serde_json` (`Reader.fromStr`), and `Reader.final` says where
a capital sigma ends a word.
-/

namespace EraseMe.Triage

open Json

/-- What the parser takes from outside. -/
structure Reader where
  fromStr : List Char → Option Json
  final : List Char → List Char → Bool

/-! ### Numbers and summaries -/

/-- The double nearest to 0.4. -/
def confidenceThresholdLow : ℤ × ℤ := (3602879701896397, -53)

def summaryByteLimit : ℕ := 200

/-- The octets of a summary; a cut may leave an initial part of a character at the end. -/
structure SummaryBytes where
  bytes : List UInt8
  length_le : bytes.length ≤ summaryByteLimit
  deriving DecidableEq

def SummaryBytes.empty : SummaryBytes := ⟨[], Nat.zero_le _⟩

def SummaryBytes.truncated (value : String) : SummaryBytes :=
  ⟨(Utf8.encode value).take summaryByteLimit, by simp⟩

/-- One mark for each octet that is ill-formed. -/
def goJsonLossy (bytes : List UInt8) : String := String.ofList (Utf8.lossyPerByte bytes)

def SummaryBytes.wireString (summary : SummaryBytes) : String := goJsonLossy summary.bytes

/-! ### The result -/

/-- What a classifier says. -/
structure ClassificationResult where
  classification : String := "unclear"
  eventType : String := "HUMAN_ACTION_REQUIRED"
  confidence : ℤ × ℤ := (0, 0)
  summary : SummaryBytes := .empty
  extractedFields : Map := []
  needsHumanReview : Bool := true

/-- The event type of a label. -/
def classificationEvent (classification : String) : Option String :=
  if classification = "ack" then some "ACK"
  else if classification = "confirmed" then some "CONFIRMED"
  else if classification = "rejected" then some "REJECTED_FINAL"
  else if classification = "verification" then some "VERIFICATION_REQUESTED"
  else if classification = "human_required" ∨ classification = "unclear" then
    some "HUMAN_ACTION_REQUIRED"
  else if classification = "autoresponder" then some "AUTORESPONDER"
  else if classification = "bounce" then some "BOUNCE"
  else none

/-- `f64::clamp(0.0, 1.0)` of the number, if it is one. -/
def clampConfidence (value : Option Json) : ℤ × ℤ :=
  let confidence := (value.bind asF64).getD (0, 0)
  if rational confidence < 0 then (0, 0)
  else if rational confidence > 1 then (1, 0)
  else confidence

def asObject : Json → Option Map
  | .object fields => some fields
  | _ => none

/-! ### The text -/

def codeFence : List Char := "```".toList

def stripSuffix (suffix text : List Char) : Option (List Char) :=
  if suffix.isSuffixOf text then some (text.take (text.length - suffix.length)) else none

/-- The text after the word `json`, if it starts with it.  `text[4..]` is cut in octets: `none` would
be a cut inside a character. -/
def stripJsonWord (final : List Char → List Char → Bool) (text : List Char) : Option (List Char) :=
  if "json".toList.isPrefixOf (Lowercase.toLowercase final text) = true then
    (Email.sliceFrom 4 text).map Text.trim
  else some text

/-- The text without a code fence around it. -/
def stripJsonCodeFence (final : List Char → List Char → Bool) (response : List Char) :
    Option (List Char) :=
  let text := Text.trim response
  if codeFence.isPrefixOf text then
    (stripJsonWord final (Text.trim (text.drop 3))).map fun text =>
      Text.trim ((stripSuffix codeFence text).getD text)
  else some text

section Fence

variable {final : List Char → List Char → Bool} {text : List Char}

theorem isStable_json : ∀ d ∈ "json".toList, Lowercase.IsStable d := by
  intro d hd
  by_cases hj : d = 'j'
  · subst hj
    exact ⟨by decide, by decide, by decide, by decide, by decide +kernel, by decide +kernel,
      by decide⟩
  · have hrest : ∀ d ∈ "json".toList, d ≠ 'j' → d ∈ "refwdantosvgé:".toList := by decide
    exact Lowercase.isStable_of_mem (hrest d hd hj)

/-- What starts with the four letters in some case has its fifth character at the fourth octet. -/
theorem sliceFrom_json (h : "json".toList.isPrefixOf (Lowercase.toLowercase final text) = true) :
    ∃ rest, Email.sliceFrom 4 text = some rest := by
  obtain ⟨q, rest, rfl, hcase⟩ :=
    Lowercase.exists_anyCase isStable_json (List.isPrefixOf_iff_prefix.1 h)
  have hsize : Email.size q = 4 := Lowercase.size_anyCase isStable_json hcase
  exact ⟨rest, hsize ▸ Email.sliceFrom_append q rest⟩

theorem stripJsonWord_isSome (final : List Char → List Char → Bool) (text : List Char) :
    (stripJsonWord final text).isSome := by
  unfold stripJsonWord
  split_ifs with hjson
  · obtain ⟨rest, hrest⟩ := sliceFrom_json hjson
    rw [hrest]
    rfl
  · rfl

/-- The text is never cut inside a character. -/
theorem stripJsonCodeFence_isSome (final : List Char → List Char → Bool) (response : List Char) :
    (stripJsonCodeFence final response).isSome := by
  unfold stripJsonCodeFence
  dsimp only
  split_ifs
  · rw [Option.isSome_map]
    exact stripJsonWord_isSome final _
  · rfl

end Fence

/-- The members of the answer; `null` has none. -/
def parseObject (reader : Reader) (response : List Char) : Option Map :=
  match (stripJsonCodeFence reader.final response).bind reader.fromStr with
  | some (.object data) => some data
  | some .null => some []
  | _ => none

/-- The label as the model wrote it, in lower case and without blanks around it. -/
def writtenLabel (final : List Char → List Char → Bool) (data : Map) : Option String :=
  ((data.get "classification").bind asStr).map fun value =>
    String.ofList (Lowercase.toLowercase final (Text.trim value.toList))

/-- A label outside the list is `unclear`. -/
def label (final : List Char → List Char → Bool) (data : Map) : String :=
  ((writtenLabel final data).filter fun value => (classificationEvent value).isSome).getD "unclear"

/-- The answer of a model. -/
def parseClassificationResponse (reader : Reader) (response : String) : ClassificationResult :=
  match parseObject reader response.toList with
  | none => { summary := .truncated "Failed to parse classifier response" }
  | some data =>
      let classification := label reader.final data
      let confidence := clampConfidence (data.get "confidence")
      { classification := classification
        eventType := (classificationEvent classification).getD ""
        confidence := confidence
        summary := (((data.get "summary").bind asStr).map .truncated).getD .empty
        extractedFields := (((data.get "extracted_fields").bind asObject).map sortFields).getD []
        needsHumanReview :=
          rational confidence < rational confidenceThresholdLow ∨ classification = "unclear" }

/-! ### What a result may be -/

theorem rational_zero : rational (0, 0) = 0 := by simp [rational]

theorem rational_one : rational (1, 0) = 1 := by simp [rational]

/-- A label has an event type. -/
theorem classificationEvent_label (final : List Char → List Char → Bool) (data : Map) :
    (classificationEvent (label final data)).isSome := by
  unfold label
  cases h : (writtenLabel final data).filter fun value => (classificationEvent value).isSome with
  | none => decide
  | some value => exact (Option.filter_eq_some_iff.1 h).2

/-- A label other than the default one was written. -/
theorem label_eq_iff (final : List Char → List Char → Bool) (data : Map) {value : String}
    (hvalue : value ≠ "unclear") :
    label final data = value ↔
      writtenLabel final data = some value ∧ (classificationEvent value).isSome := by
  unfold label
  constructor
  · intro h
    cases hfilter : (writtenLabel final data).filter fun v => (classificationEvent v).isSome with
    | none =>
      rw [hfilter] at h
      exact absurd h.symm hvalue
    | some v =>
      rw [hfilter] at h
      obtain rfl : v = value := h
      exact Option.filter_eq_some_iff.1 hfilter
  · rintro ⟨hwritten, hevent⟩
    rw [hwritten, Option.filter_some, if_pos hevent]
    rfl

/-- The event types of labels. -/
theorem classificationEvent_eq_some {classification eventType : String}
    (h : classificationEvent classification = some eventType) :
    eventType ∈ ["ACK", "CONFIRMED", "REJECTED_FINAL", "VERIFICATION_REQUESTED",
      "HUMAN_ACTION_REQUIRED", "AUTORESPONDER", "BOUNCE"] := by
  unfold classificationEvent at h
  split_ifs at h
  all_goals
    obtain rfl := Option.some.inj h
    decide

/-- Every result carries one of the seven event types. -/
theorem eventType_parse (reader : Reader) (response : String) :
    (parseClassificationResponse reader response).eventType ∈
      ["ACK", "CONFIRMED", "REJECTED_FINAL", "VERIFICATION_REQUESTED", "HUMAN_ACTION_REQUIRED",
        "AUTORESPONDER", "BOUNCE"] := by
  unfold parseClassificationResponse
  cases parseObject reader response.toList with
  | none =>
    show "HUMAN_ACTION_REQUIRED" ∈ _
    decide
  | some data =>
    obtain ⟨eventType, h⟩ := Option.isSome_iff_exists.1
      (classificationEvent_label reader.final data)
    show (classificationEvent (label reader.final data)).getD "" ∈ _
    rw [h]
    exact classificationEvent_eq_some h

end EraseMe.Triage
