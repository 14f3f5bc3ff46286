import EraseMe.Library.Text

/-!
# `templating`: the names of the embedded templates

A template is rendered by name: the name of an embedded one, behind `laws/` or `templates/` or alone.
-/

namespace EraseMe.Templating

structure TemplateError where
  message : String
  deriving DecidableEq, Repr

def maxNameBytes : ℕ := 256

/-- The names of the embedded templates. -/
def templates : List String :=
  ["ccpa-deletion.en.md.j2", "ccpa-opt-out.en.md.j2", "ccpa-rebuttal-deletion.md.j2",
    "gdpr-art17.de.md.j2", "gdpr-art17.en.md.j2", "gdpr-rebuttal-address.md.j2",
    "gdpr-rebuttal-identity.md.j2", "gdpr-rebuttal-rejected.en.md.j2",
    "gdpr-rebuttal-verification.en.md.j2", "dashboard.html.j2", "report.html.j2"]

def invalidName : TemplateError := ⟨"invalid template name"⟩

def unknownTemplate : TemplateError := ⟨"unknown template"⟩

/-- The name without the directory. -/
def withoutDirectory (input : List Char) : List Char :=
  ((Text.stripPrefix "laws/".toList input).or
    (Text.stripPrefix "templates/".toList input)).getD input

/-- The canonical name. -/
def canonicalName (input : String) : Except TemplateError String :=
  let s := input.toList
  if s = [] ∨ input.utf8ByteSize > maxNameBytes ∨ '\\' ∈ s ∨ s.head? = some '/' ∨
      s.any Text.isControl then .error invalidName
  else
    let name := withoutDirectory s
    if name = [] ∨ (Text.splitOn '/' name).any (fun part => part = [] ∨ part = ['.'] ∨
        part = ['.', '.']) then .error invalidName
    else if name ≠ s ∧ (s.count '/' ≠ 1 ∨ '/' ∈ name) then .error invalidName
    else if String.ofList name ∈ templates then .ok (String.ofList name)
    else .error unknownTemplate

/-- What is rendered is embedded. -/
theorem mem_templates_of_canonicalName {input name : String} (h : canonicalName input = .ok name) :
    name ∈ templates := by
  unfold canonicalName at h
  simp only at h
  split_ifs at h with h1 h2 h3 h4
  cases h
  exact h4

/-- What is rendered is named without its directory. -/
theorem eq_of_canonicalName {input name : String} (h : canonicalName input = .ok name) :
    name = String.ofList (withoutDirectory input.toList) := by
  unfold canonicalName at h
  simp only at h
  split_ifs at h with h1 h2 h3 h4
  cases h
  rfl

end EraseMe.Templating
