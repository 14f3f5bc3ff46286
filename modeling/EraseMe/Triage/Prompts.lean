import EraseMe.Redaction.Pii
import EraseMe.Triage.Contract

/-!
# `triage_prompts`: what the language model is told

The prompts are octets: the texts of the broker are cut at a number of octets, redacted and joined.
A text that cannot be redacted is left out.
-/

namespace EraseMe.Triage

open Redaction

def originalSnippetLimit : ℕ := 500
def replyBodyLimit : ℕ := 2000
def brokerMessageLimit : ℕ := 3000

def cutBytes (value : Bytes) (limit : ℕ) : Bytes := value.take (min value.length limit)

/-- The redacted octets; an error leaves nothing. -/
def redactCompat (engine : Engine) (value : Bytes) (profile : Option RedactionProfile) : Bytes :=
  match redactBytes engine value profile with
  | .ok output => output
  | .error _ => []

/-- The parts with an empty line between them. -/
def joinParts (parts : List Bytes) : Bytes := List.intercalate [10, 10] parts

/-- The prompt that asks for the kind of a reply. -/
def buildUserPrompt (engine : Engine) (brokerName brokerWebsite originalSubject originalSnippet
    replySubject replyBody : String) (profile : Option RedactionProfile) : Bytes :=
  joinParts <|
    [Utf8.encode ("Broker: " ++ brokerName ++ " (" ++ brokerWebsite ++ ")")] ++
    (if originalSubject = "" then []
      else [Utf8.encode ("Original request subject: " ++ originalSubject)]) ++
    (if originalSnippet = "" then []
      else [Utf8.encode "Original request body (truncated):\n" ++
        cutBytes (Utf8.encode originalSnippet) originalSnippetLimit]) ++
    [Utf8.encode "\nReply subject: " ++ redactCompat engine (Utf8.encode replySubject) profile] ++
    [Utf8.encode "Reply body:\n" ++
      redactCompat engine (cutBytes (Utf8.encode replyBody) replyBodyLimit) profile]

end EraseMe.Triage
