import EraseMe.Library.Octets
import EraseMe.Library.Result

/-!
# `redaction::pii`: what is personal in a text

`collectMatches` finds the literals of a profile and the matches of the built-in rules, sorts them
and keeps those that do not overlap an earlier one; `redactBytes` puts their replacements in.

The regular expressions are those of the `regex` crate.  An `Engine` answers a search with spans
that are not empty and lie in the text searched.
-/

namespace EraseMe.Redaction

abbrev Bytes := List UInt8

def maxInputBytes : ℕ := 16777216
def maxMatches : ℕ := 100000
def maxOutputBytes : ℕ := 33554432
def maxProfileLiteralBytes : ℕ := 16384
def maxProfileLiteralCount : ℕ := 4096
def maxProfileTotalBytes : ℕ := 1048576
def maxProfileAddresses : ℕ := 4096
def maxProfileVectorEntries : ℕ := 4096

/-- The largest `usize`. -/
def usizeMax : ℕ := 18446744073709551615

def checkedAdd (a b : ℕ) : Option ℕ := if a + b ≤ usizeMax then some (a + b) else none

def checkedSub (a b : ℕ) : Option ℕ := if b ≤ a then some (a - b) else none

/-- An address. -/
structure Address where
  street : String := ""
  city : String := ""
  postalCode : String := ""
  deriving DecidableEq, Repr

/-- What is known of the person. -/
structure RedactionProfile where
  fullName : String := ""
  nameVariants : List String := []
  emailAddresses : List String := []
  phoneNumbers : List String := []
  addresses : List Address := []
  deriving DecidableEq, Repr

/-- Why nothing is redacted. -/
inductive RedactionError
  | inputTooLarge
  | matchLimit
  | outputTooLarge
  | invalidProfileLiteral
  | invalidMatchRange
  deriving DecidableEq, Repr

/-- The kinds of replacement, one for each rule. -/
inductive Replacement
  | email
  | phone
  | ssn
  | iban
  | germanId
  | frenchId
  | spanishId
  | passport
  deriving DecidableEq, Repr

/-- What was found. -/
structure Match where
  name : String
  start : ℕ
  stop : ℕ
  value : Bytes
  replacement : Bytes
  deriving DecidableEq, Repr

/-! ### The regular expressions -/

/-- A span of a text of length `n` that is not empty. -/
structure Span (n : ℕ) where
  start : ℕ
  stop : ℕ
  lt : start < stop
  le : stop ≤ n

/-- The searches for the rules and for literals without regard to case; a literal may fail to
compile.  `identifier` is the third group of the passport expression. -/
structure Engine where
  rule : Replacement → (text : Bytes) → List (Span text.length)
  asciiLiteral : String → Option ((text : Bytes) → List (Span text.length))
  textLiteral : String → Option ((text : Bytes) → List (Span text.length))
  identifier : (text : Bytes) → Option (Span text.length)

/-- The octets of a span. -/
def slice (text : Bytes) (start stop : ℕ) : Bytes := (text.drop start).take (stop - start)

/-! ### The rules -/

def isAsciiDigit (b : UInt8) : Bool := 48 ≤ b ∧ b ≤ 57

def ascii (s : String) : Bytes := Utf8.encode s

/-- Not a number that is given out. -/
def invalidSsn (value : Bytes) : Bool :=
  let digits := value.filter isAsciiDigit
  digits.length = 9 ∧ ((ascii "000").isPrefixOf digits ∨ (ascii "666").isPrefixOf digits ∨
    digits.head? = some 57 ∨ slice digits 3 5 = ascii "00" ∨ digits.drop 5 = ascii "0000")

/-- The parts between the dots. -/
def labels : Bytes → List Bytes
  | [] => [[]]
  | b :: s =>
      if b = 46 then [] :: labels s
      else match labels s with
        | [] => [[b]]
        | part :: parts => (b :: part) :: parts

/-- It looks like an address. -/
def validEmail (value : Bytes) : Bool :=
  let at' := value.idxOf 64
  let domain := value.drop (at' + 1)
  if at' = value.length ∨ at' = 0 ∨ at' + 1 ≥ value.length ∨ 64 ∈ domain then false
  else
    (labels domain).length ≤ 127 ∧ ∀ label ∈ labels domain,
      label ≠ [] ∧ label.length ≤ 63 ∧ label.head? ≠ some 45 ∧ label.getLast? ≠ some 45

/-- Stars and the last octets. -/
def suffixMask (value : Bytes) (suffix stars : ℕ) : Bytes :=
  if value.length < suffix then value
  else List.replicate stars 42 ++ value.drop (value.length - suffix)

/-- The first and the last octets. -/
def maskParts (value : Bytes) (leading suffix : ℕ) (middle : Bytes) : Bytes :=
  if value.length < leading + suffix then value
  else
    value.take leading ++ List.replicate (value.length - suffix + middle.length) 42 ++
      value.drop (value.length - suffix)

/-- An address with a star. -/
def scrubEmail (value : Bytes) : Bytes :=
  let at' := value.idxOf 64
  let domain := value.drop (at' + 1)
  if at' = value.length ∨ at' = 0 ∨ domain = [] then value
  else
    value.take 1 ++
      (if at' > 2 then List.replicate (at' - 2) 42 ++ slice value (at' - 1) at' else []) ++ [64] ++
      domain.take 1 ++
      if 46 ∈ domain then [42, 46] ++ domain.drop (domain.idxOf 46 + 1) else [46, 42]

/-- A number with its end. -/
def scrubPhone (value : Bytes) : Bytes :=
  let digits := value.filter isAsciiDigit
  if digits.length < 4 then value
  else
    (if digits.length = 11 then ascii "+1-***-***-" else ascii "***-***-") ++
      digits.drop (digits.length - 4)

/-- A number without its middle. -/
def scrubPassport (engine : Engine) (value : Bytes) : Bytes :=
  match engine.identifier value with
  | none => value
  | some identifier =>
      if identifier.stop - identifier.start < 2 then value
      else
        value.take identifier.start ++
          List.replicate (identifier.stop - 2 - identifier.start) 42 ++
          value.drop (identifier.stop - 2)

def toAsciiUppercase (b : UInt8) : UInt8 := if 97 ≤ b ∧ b ≤ 122 then b - 32 else b

/-- What is put in its place. -/
def replace (engine : Engine) (kind : Replacement) (value : Bytes) : Bytes :=
  match kind with
  | .ssn => ascii "***-**-****"
  | .email => scrubEmail value
  | .phone => scrubPhone value
  | .iban => maskParts value 2 4 (ascii "**")
  | .germanId => suffixMask value 2 7
  | .frenchId => suffixMask value 3 3
  | .spanishId => ascii "****-****-" ++ [toAsciiUppercase (value.getLast?.getD 63)]
  | .passport => scrubPassport engine value

/-- A name and what replaces it. -/
structure Rule where
  name : String
  replacement : Replacement

/-- The rules in order. -/
def builtinRules : List Rule :=
  [⟨"IBAN", .iban⟩, ⟨"German ID", .germanId⟩, ⟨"French ID", .frenchId⟩,
    ⟨"Spanish ID", .spanishId⟩, ⟨"Passport", .passport⟩, ⟨"SSN", .ssn⟩, ⟨"Email", .email⟩,
    ⟨"Phone", .phone⟩]

/-! ### The profile -/

/-- Count one literal of the profile. -/
def checkLiteral (counted : ℕ × ℕ) (value : String) : Except RedactionError (ℕ × ℕ) :=
  if value = "" then .ok counted
  else if value.utf8ByteSize > maxProfileLiteralBytes ∨ Char.ofNat 0 ∈ value.toList then
    .error .invalidProfileLiteral
  else
    match checkedAdd counted.1 1, checkedAdd counted.2 value.utf8ByteSize with
    | some count, some total =>
        if count > maxProfileLiteralCount ∨ total > maxProfileTotalBytes then
          .error .invalidProfileLiteral
        else .ok (count, total)
    | _, _ => .error .invalidProfileLiteral

/-- The profile is not too large. -/
def validateProfile (profile : RedactionProfile) : Except RedactionError Unit :=
  if profile.nameVariants.length > maxProfileVectorEntries ∨
      profile.emailAddresses.length > maxProfileVectorEntries ∨
      profile.phoneNumbers.length > maxProfileVectorEntries ∨
      profile.addresses.length > maxProfileAddresses then
    .error .invalidProfileLiteral
  else do
    let values := profile.fullName :: profile.nameVariants ++ profile.emailAddresses ++
      profile.phoneNumbers ++ profile.addresses.flatMap fun a => [a.street, a.city, a.postalCode]
    let _ ← values.foldlM checkLiteral (0, 0)
    .ok ()

/-! ### The matches -/

/-- One more match. -/
def pushMatch (out : List Match) (value : Match) : Except RedactionError (List Match) :=
  if out.length ≥ maxMatches then .error .matchLimit else .ok (out ++ [value])

/-- A span of a part of the input that starts at `offset`. -/
def matchAt {n : ℕ} (input : Bytes) (offset : ℕ) (name : String) (replacement : Bytes)
    (span : Span n) : Match :=
  ⟨name, offset + span.start, offset + span.stop,
    slice input (offset + span.start) (offset + span.stop), replacement⟩

/-- How much of the octets is well-formed UTF-8, in at most `fuel` characters. -/
def validUpTo : ℕ → Bytes → ℕ
  | 0, _ => 0
  | fuel + 1, s =>
      match Utf8.next s with
      | (some _, n) => n + validUpTo fuel (s.drop n)
      | (none, _) => 0

/-- The well-formed parts of the input from `offset` on, searched one by one; what is ill-formed is
stepped over. -/
def appendTextLiteral (search : (text : Bytes) → List (Span text.length)) (input : Bytes)
    (name : String) (replacement : Bytes) :
    ℕ → ℕ → List Match → Except RedactionError (List Match)
  | 0, _, out => .ok out
  | fuel + 1, offset, out => do
      if offset ≥ input.length then return out
      let remainder := input.drop offset
      let validLen := validUpTo remainder.length remainder
      let text := remainder.take validLen
      let out ← (search text).foldlM
        (fun out span => pushMatch out (matchAt input offset name replacement span)) out
      if validLen = remainder.length then return out
      let invalidLen := (Utf8.next (remainder.drop validLen)).2
      appendTextLiteral search input name replacement fuel
        (min (offset + (validLen + max invalidLen 1)) input.length) out

def isAscii (value : String) : Bool := value.toList.all fun c => c.toNat < 128

/-- The occurrences of one value of the profile. -/
def appendLiteral (engine : Engine) (input : Bytes) (name : String) (replacement : String)
    (out : List Match) (value : String) : Except RedactionError (List Match) :=
  if value = "" then .ok out
  else if value.utf8ByteSize > maxProfileLiteralBytes ∨ Char.ofNat 0 ∈ value.toList then
    .error .invalidProfileLiteral
  else if isAscii value then
    match engine.asciiLiteral value with
    | none => .error .invalidProfileLiteral
    | some search => (search input).foldlM
        (fun out span => pushMatch out (matchAt input 0 name (ascii replacement) span)) out
  else
    match engine.textLiteral value with
    | none => .error .invalidProfileLiteral
    | some search =>
        appendTextLiteral search input name (ascii replacement) (input.length + 1) 0 out

/-- Find an address. -/
def appendAddress (engine : Engine) (input : Bytes) (out : List Match) (address : Address) :
    Except RedactionError (List Match) := do
  let out ← appendLiteral engine input "Profile Street" "[REDACTED-STREET]" out address.street
  let out ← appendLiteral engine input "Profile City" "[REDACTED-CITY]" out address.city
  appendLiteral engine input "Profile Postal Code" "[REDACTED-POSTAL]" out address.postalCode

/-- The occurrences of the values of the profile. -/
def appendProfile (engine : Engine) (input : Bytes) (profile : RedactionProfile)
    (out : List Match) : Except RedactionError (List Match) := do
  let out ← profile.emailAddresses.foldlM
    (appendLiteral engine input "Profile Email" "[REDACTED-EMAIL]") out
  let out ← profile.phoneNumbers.foldlM
    (appendLiteral engine input "Profile Phone" "[REDACTED-PHONE]") out
  let out ← appendLiteral engine input "Profile Name" "[REDACTED-NAME]" out profile.fullName
  let out ← profile.nameVariants.foldlM
    (appendLiteral engine input "Profile Name" "[REDACTED-NAME]") out
  profile.addresses.foldlM (appendAddress engine input) out

/-- One match of a rule, unless it is no number or no address after all. -/
def appendFound (engine : Engine) (input : Bytes) (rule : Rule) (out : List Match)
    (span : Span input.length) : Except RedactionError (List Match) :=
  let value := slice input span.start span.stop
  if rule.name = "SSN" ∧ invalidSsn value then .ok out
  else if rule.name = "Email" ∧ ¬ validEmail value then .ok out
  else
    pushMatch out
      ⟨rule.name, span.start, span.stop, value, replace engine rule.replacement value⟩

/-- Find what a rule finds. -/
def appendRule (engine : Engine) (input : Bytes) (out : List Match) (rule : Rule) :
    Except RedactionError (List Match) :=
  (engine.rule rule.replacement input).foldlM (appendFound engine input rule) out

/-- By start, the longer one first. -/
def comesFirst (a b : Match) : Bool :=
  a.start < b.start ∨ a.start = b.start ∧ b.stop - b.start ≤ a.stop - a.start

/-- Keep what does not overlap the match kept before it. -/
def accept (acc : List Match × ℕ) (candidate : Match) : List Match × ℕ :=
  if acc.1 = [] ∨ candidate.start ≥ acc.2 then (acc.1 ++ [candidate], candidate.stop) else acc

/-- The matches of the profile, if there is one. -/
def profileMatches (engine : Engine) (input : Bytes) :
    Option RedactionProfile → Except RedactionError (List Match)
  | some profile => do
      validateProfile profile
      appendProfile engine input profile []
  | none => .ok []

/-- All matches from left to right, without overlap. -/
def collectMatches (engine : Engine) (input : Bytes) (profile : Option RedactionProfile) :
    Except RedactionError (List Match) := do
  if input.length > maxInputBytes then throw .inputTooLarge
  let found ← profileMatches engine input profile
  let found ← builtinRules.foldlM (appendRule engine input) found
  let sorted := found.insertionSort fun a b => comesFirst a b
  return (sorted.foldl accept ([], 0)).1

/-! ### The replacement -/

/-- The length of the output after one more replacement. -/
def outputLength (length : ℕ) (item : Match) : Option ℕ :=
  (checkedSub length (item.stop - item.start)).bind fun length =>
    checkedAdd length item.replacement.length

/-- The length after a match. -/
def checkLength (length : ℕ) (item : Match) : Except RedactionError ℕ :=
  match outputLength length item with
  | none => .error .outputTooLarge
  | some length => if length > maxOutputBytes then .error .outputTooLarge else .ok length

/-- The octets from `start` to `stop`, when there are such. -/
def get (input : Bytes) (start stop : ℕ) : Option Bytes :=
  if start ≤ stop ∧ stop ≤ input.length then some (slice input start stop) else none

/-- Append the text before the item and its replacement. -/
def emit (input : Bytes) (acc : Bytes × ℕ) (item : Match) : Except RedactionError (Bytes × ℕ) :=
  match get input acc.2 item.start with
  | none => .error .invalidMatchRange
  | some before => .ok (acc.1 ++ before ++ item.replacement, item.stop)

/-- Redact everything. -/
def redactBytes (engine : Engine) (input : Bytes) (profile : Option RedactionProfile) :
    Except RedactionError Bytes := do
  let found ← collectMatches engine input profile
  let _ ← found.foldlM checkLength input.length
  let (output, position) ← found.foldlM (emit input) ([], 0)
  match get input position input.length with
  | none => throw .invalidMatchRange
  | some rest => return output ++ rest

end EraseMe.Redaction
