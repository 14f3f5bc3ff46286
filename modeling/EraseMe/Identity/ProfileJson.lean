import EraseMe.Identity.InitProfile
import EraseMe.Jsonorder
import EraseMe.Library.JsonText

/-!
# `identity::profile`: the text of a profile

A profile is written by `serde_json`.  What is read goes through a normaliser of octets, a filter
that drops unknown members with a cursor of its own, and a decoder that folds the case of names and
lets the last of several members win.

A cursor is what is left of the input; a range is the part between two cursors (`consumed`).  Loops
have as much fuel as there are octets, and the filter twice as much.
-/

namespace EraseMe.Identity.Secrets

open Json (Octets isBlank skipBlank hexQuad lowSurrogate)

/-- What the program uses of `serde_json`. -/
structure SerdeJson where
  toVec : Json → Bytes
  toVecPretty : Json → Bytes
  fromSlice : Bytes → Option Json

/-! ### Names of members -/

/-- `to_lowercase` and the replacement of the long s; of the characters outside ASCII only these
become letters of a name below. -/
def foldChar (c : Char) : List Char :=
  if c = 'ſ' then ['s']
  else if c.toNat = 0x130 then ['i', Char.ofNat 0x307]
  else if c.toNat = 0x212A then ['k']
  else [c.toLower]

/-- A name without case. -/
def foldName (name : String) : String := String.ofList (name.toList.flatMap foldChar)

/-- What a field holds. -/
inductive ProfileFieldKind
  | scalar
  | optional
  | strings
  | addresses
  deriving DecidableEq, Repr

/-- The kind of a field. -/
def profileFieldKind (name : String) (address : Bool) : Option ProfileFieldKind :=
  let name := foldName name
  if address then
    if name ∈ ["street", "city", "postal_code", "country"] then some .scalar
    else if name ∈ ["state", "valid_from", "valid_to"] then some .optional
    else none
  else if name = "full_name" then some .scalar
  else if name ∈ ["name_variants", "email_addresses", "phone_numbers", "jurisdictions"] then
    some .strings
  else if name = "date_of_birth" then some .optional
  else if name = "addresses" then some .addresses
  else none

/-! ### The normaliser -/

/-- How deep values may be. -/
def goMaxJsonNestingDepth : ℕ := 10000

/-- The letters that may follow a backslash alone. -/
def simpleEscape (e : UInt8) : Bool := e ∈ ([34, 92, 47, 98, 102, 110, 114, 116] : List UInt8)

/-- An octet after the first. -/
def isContinuation : Option UInt8 → Bool
  | some b => 0x80 ≤ b ∧ b ≤ 0xbf
  | none => false

/-- An octet between two others. -/
def inRange (low high : UInt8) : Option UInt8 → Bool
  | some b => low ≤ b ∧ b ≤ high
  | none => false

/-- How many octets the character at the start has, if it has several. -/
def validUtf8Width : Bytes → Option ℕ
  | [] => none
  | first :: s =>
      let next (n : ℕ) : Option UInt8 := s[n - 1]?
      if 0xc2 ≤ first ∧ first ≤ 0xdf ∧ isContinuation (next 1) then some 2
      else if first = 0xe0 ∧ inRange 0xa0 0xbf (next 1) ∧ isContinuation (next 2) then some 3
      else if first = 0xed ∧ inRange 0x80 0x9f (next 1) ∧ isContinuation (next 2) then some 3
      else if (0xe1 ≤ first ∧ first ≤ 0xec ∨ 0xee ≤ first ∧ first ≤ 0xef) ∧
          isContinuation (next 1) ∧ isContinuation (next 2) then some 3
      else if first = 0xf0 ∧ inRange 0x90 0xbf (next 1) ∧ isContinuation (next 2) ∧
          isContinuation (next 3) then some 4
      else if first = 0xf4 ∧ inRange 0x80 0x8f (next 1) ∧ isContinuation (next 2) ∧
          isContinuation (next 3) then some 4
      else if 0xf1 ≤ first ∧ first ≤ 0xf3 ∧ isContinuation (next 1) ∧ isContinuation (next 2) ∧
          isContinuation (next 3) then some 4
      else none

/-- A lone surrogate is replaced. -/
def unpaired : Bytes := Utf8.encode "\\ufffd"

/-- The string after its opening quotation mark, and what follows it. -/
def normalizeJsonString : ℕ → Bytes → Option (Bytes × Bytes)
  | 0, _ => none
  | _ + 1, [] => none
  | fuel + 1, b :: s =>
      let more (out rest : Bytes) :=
        (normalizeJsonString fuel rest).map fun r => (out ++ r.1, r.2)
      if b = 34 then some ([34], s)
      else if b = 92 then
        match s with
        | [] => none
        | escape :: s =>
            if escape = 117 then
              match hexQuad s with
              | none => none
              | some code =>
                  if 0xd800 ≤ code ∧ code ≤ 0xdbff then
                    if (lowSurrogate (s.drop 4)).isSome then
                      more (92 :: 117 :: s.take 10) (s.drop 10)
                    else more unpaired (s.drop 4)
                  else if 0xdc00 ≤ code ∧ code ≤ 0xdfff then more unpaired (s.drop 4)
                  else more (92 :: 117 :: s.take 4) (s.drop 4)
            else if simpleEscape escape then more [92, escape] s
            else none
      else if b < 0x20 then none
      else if b < 0x80 then more [b] s
      else
        match validUtf8Width (b :: s) with
        | some width => more ((b :: s).take width) ((b :: s).drop width)
        | none => more [0xef, 0xbf, 0xbd] s

/-- The rest of the text, so many brackets deep. -/
def normalizeFrom : ℕ → ℕ → Bytes → Option Bytes
  | _, _, [] => some []
  | 0, _, _ :: _ => none
  | fuel + 1, depth, b :: s =>
      if b = 34 then
        match normalizeJsonString s.length s with
        | none => none
        | some (out, rest) => (normalizeFrom fuel depth rest).map fun r => 34 :: (out ++ r)
      else if b = 123 ∨ b = 91 then
        if goMaxJsonNestingDepth < depth + 1 then none
        else (normalizeFrom fuel (depth + 1) s).map fun r => b :: r
      else if b = 125 ∨ b = 93 then (normalizeFrom fuel (depth - 1) s).map fun r => b :: r
      else (normalizeFrom fuel depth s).map fun r => b :: r

/-- Well-formed text, or nothing. -/
def normalizeGoJson (input : Bytes) : Option Bytes := normalizeFrom input.length 0 input

/-! ### The cursor -/

/-- The range between two cursors. -/
def consumed (s rest : Bytes) : Bytes := s.take (s.length - rest.length)

/-- After the opening quotation mark: what follows the string. -/
def parseStringFrom : ℕ → Bytes → Option Bytes
  | 0, _ => none
  | _ + 1, [] => none
  | fuel + 1, b :: s =>
      if b = 34 then some s
      else if b = 92 then
        match s with
        | [] => none
        | escape :: s =>
            if escape = 117 then
              match hexQuad s with
              | none => none
              | some _ => parseStringFrom fuel (s.drop 4)
            else if simpleEscape escape then parseStringFrom fuel s
            else none
      else if b < 0x20 then none
      else if b < 0x80 then parseStringFrom fuel s
      else
        match validUtf8Width (b :: s) with
        | some width => parseStringFrom fuel ((b :: s).drop width)
        | none => none

/-- Skip a string. -/
def parseString : Bytes → Option Bytes
  | [] => none
  | b :: s => if b = 34 then parseStringFrom s.length s else none

/-- Skip a word. -/
def parseLiteral (literal : String) (s : Bytes) : Option Bytes :=
  if (Utf8.encode literal).isPrefixOf s then some (s.drop (Utf8.encode literal).length) else none

/-- What may follow a number. -/
def isValueDelimiter : Option UInt8 → Bool
  | none => true
  | some b => isBlank b ∨ b = 44 ∨ b = 93 ∨ b = 125

/-- At least one digit. -/
def parseDigits (s : Bytes) : Option Bytes :=
  let rest := s.dropWhile Json.isDigit
  if rest.length = s.length then none else some rest

/-- Skip the integer part. -/
def parseInteger : Bytes → Option Bytes
  | [] => none
  | b :: s =>
      if b = 48 then some s
      else if 49 ≤ b ∧ b ≤ 57 then some (s.dropWhile Json.isDigit)
      else none

/-- Skip the fraction. -/
def parseFraction (s : Bytes) : Option Bytes :=
  if s.head? = some 46 then parseDigits s.tail else some s

/-- Skip the exponent. -/
def parseExponent (s : Bytes) : Option Bytes :=
  if s.head? = some 101 ∨ s.head? = some 69 then
    let s := s.tail
    parseDigits (if s.head? = some 43 ∨ s.head? = some 45 then s.tail else s)
  else some s

/-- Skip a number. -/
def parseNumber (s : Bytes) : Option Bytes :=
  ((parseInteger (if s.head? = some 45 then s.tail else s)).bind fun s =>
    (parseFraction s).bind parseExponent).filter fun rest => isValueDelimiter rest.head?

/-- What an array waits for. -/
inductive ArrayState
  | valueOrEnd
  | value
  | commaOrEnd

/-- What an object waits for. -/
inductive ObjectState
  | keyOrEnd
  | key
  | value
  | commaOrEnd

/-- A container that is open. -/
inductive JsonFrame
  | array (state : ArrayState)
  | object (state : ObjectState)

/-- The start of a value. -/
def startValue (frames : List JsonFrame) (s : Bytes) : Option (List JsonFrame × Bytes) :=
  let s := skipBlank s
  match s.head? with
  | none => none
  | some b =>
      if b = 34 then (parseString s).map fun rest => (frames, rest)
      else if b = 91 then
        if goMaxJsonNestingDepth ≤ frames.length then none
        else some (.array .valueOrEnd :: frames, s.tail)
      else if b = 123 then
        if goMaxJsonNestingDepth ≤ frames.length then none
        else some (.object .keyOrEnd :: frames, s.tail)
      else if b = 116 then (parseLiteral "true" s).map fun rest => (frames, rest)
      else if b = 102 then (parseLiteral "false" s).map fun rest => (frames, rest)
      else if b = 110 then (parseLiteral "null" s).map fun rest => (frames, rest)
      else if b = 45 ∨ 48 ≤ b ∧ b ≤ 57 then (parseNumber s).map fun rest => (frames, rest)
      else none

/-- The name of a member and the colon. -/
def parseKey (s : Bytes) : Option Bytes :=
  (parseString s).bind fun s =>
    if (skipBlank s).head? = some 58 then some (skipBlank s).tail else none

/-- One turn of the loop of `skip_value`, with the innermost frame first. -/
def skipStep (frame : JsonFrame) (frames : List JsonFrame) (s : Bytes) :
    Option (List JsonFrame × Bytes) :=
  match frame with
  | .array .valueOrEnd =>
      if (skipBlank s).head? = some 93 then some (frames, (skipBlank s).tail)
      else startValue (.array .commaOrEnd :: frames) (skipBlank s)
  | .array .value =>
      if (skipBlank s).head? = some 93 then none
      else startValue (.array .commaOrEnd :: frames) (skipBlank s)
  | .array .commaOrEnd =>
      if (skipBlank s).head? = some 44 then some (.array .value :: frames, (skipBlank s).tail)
      else if (skipBlank s).head? = some 93 then some (frames, (skipBlank s).tail)
      else none
  | .object .keyOrEnd =>
      if (skipBlank s).head? = some 125 then some (frames, (skipBlank s).tail)
      else (parseKey (skipBlank s)).map fun rest => (.object .value :: frames, rest)
  | .object .key =>
      if (skipBlank s).head? = some 125 then none
      else (parseKey (skipBlank s)).map fun rest => (.object .value :: frames, rest)
  | .object .value => startValue (.object .commaOrEnd :: frames) s
  | .object .commaOrEnd =>
      if (skipBlank s).head? = some 44 then some (.object .key :: frames, (skipBlank s).tail)
      else if (skipBlank s).head? = some 125 then some (frames, (skipBlank s).tail)
      else none

/-- Skip until all is closed. -/
def skipLoop : ℕ → List JsonFrame → Bytes → Option Bytes
  | _, [], s => some s
  | 0, _ :: _, _ => none
  | fuel + 1, frame :: frames, s =>
      match skipStep frame frames s with
      | none => none
      | some (frames, s) => skipLoop fuel frames s

/-- The range of one value, and what follows it. -/
def skipValue (s : Bytes) : Option (Bytes × Bytes) :=
  let s := skipBlank s
  match startValue [] s with
  | none => none
  | some (frames, rest) =>
      (skipLoop rest.length frames rest).map fun rest => (consumed s rest, rest)

/-- A value that is `null`. -/
def skipNull (s : Bytes) : Option Bytes :=
  match skipValue s with
  | some (range, rest) => if range = Utf8.encode "null" then some rest else none
  | none => none

/-- Only blanks are left. -/
def atEnd (s : Bytes) : Bool := skipBlank s = []

/-! ### The filter -/

/-- A string or `null`. -/
def parseOptionalString (s : Bytes) : Option Bytes :=
  if s.head? = some 34 then parseString s
  else if s.head? = some 110 then skipNull s
  else none

/-- Strings and `null`s up to the closing bracket. -/
def validateStrings : ℕ → Bytes → Option Bytes
  | 0, _ => none
  | fuel + 1, s =>
      match parseOptionalString (skipBlank s) with
      | none => none
      | some s =>
          match skipBlank s with
          | [] => none
          | b :: s =>
              if b = 44 then
                if (skipBlank s).head? = some 93 then none else validateStrings fuel s
              else if b = 93 then some s
              else none

/-- A value of a simple kind. -/
def validateSimpleValue (input : Bytes) (kind : ProfileFieldKind) : Bool :=
  let s := skipBlank input
  match kind with
  | .scalar | .optional => (parseOptionalString s).any atEnd
  | .strings =>
      if s.head? = some 110 then (skipNull s).any atEnd
      else if s.head? ≠ some 91 then false
      else
        let s := skipBlank s.tail
        if s.head? = some 93 then atEnd s.tail else (validateStrings s.length s).any atEnd
  | .addresses => false

/-- The value of a known member as it is, if it is of the kind. -/
def reduceSimple (kind : ProfileFieldKind) (s : Bytes) : Option (Bytes × Bytes) :=
  (skipValue s).filter fun r => validateSimpleValue r.1 kind

variable (serde : SerdeJson)

/-- The name that a range stands for. -/
def decodeName (key : Bytes) : Option String := (serde.fromSlice key).bind Json.asStr

mutual

/-- The members of an object after its brace, up to the closing one; `hasField` says that a member
was written. -/
def reduceMembers : ℕ → Bool → Bool → Bytes → Option (Bytes × Bytes)
  | 0, _, _, _ => none
  | fuel + 1, address, hasField, s =>
      let start := skipBlank s
      match parseString start with
      | none => none
      | some s =>
          let key := consumed start s
          match decodeName serde key with
          | none => none
          | some name =>
              match skipBlank s with
              | [] => none
              | colon :: s =>
                  if colon ≠ 58 then none
                  else
                    let kind := profileFieldKind name address
                    let value := match kind with
                      | some .addresses => reduceAddressArray fuel s
                      | some kind => reduceSimple kind s
                      | none => skipValue s
                    match value with
                    | none => none
                    | some (value, s) =>
                        let out := if kind.isSome then
                            (if hasField then [44] else []) ++ (key ++ 58 :: value) else []
                        match skipBlank s with
                        | [] => none
                        | b :: s =>
                            if b = 44 then
                              if (skipBlank s).head? = some 125 then none
                              else
                                (reduceMembers fuel address (hasField || kind.isSome) s).map
                                  fun r => (out ++ r.1, r.2)
                            else if b = 125 then some (out ++ [125], s)
                            else none

/-- An object, from its brace on. -/
def reduceObject : ℕ → Bool → Bytes → Option (Bytes × Bytes)
  | 0, _, _ => none
  | fuel + 1, address, s =>
      if s.head? ≠ some 123 then none
      else if (skipBlank s.tail).head? = some 125 then some ([123, 125], (skipBlank s.tail).tail)
      else (reduceMembers fuel address false (skipBlank s.tail)).map fun r => (123 :: r.1, r.2)

/-- The elements of the array of addresses, up to the closing bracket. -/
def reduceAddresses : ℕ → Bool → Bytes → Option (Bytes × Bytes)
  | 0, _, _ => none
  | fuel + 1, first, s =>
      let s := skipBlank s
      let item :=
        if s.head? = some 123 then reduceObject fuel true s
        else if s.head? = some 110 then (skipNull s).map fun rest => (Utf8.encode "null", rest)
        else none
      match item with
      | none => none
      | some (item, s) =>
          let out := (if first then [] else [44]) ++ item
          match skipBlank s with
          | [] => none
          | b :: s =>
              if b = 44 then
                if (skipBlank s).head? = some 93 then none
                else (reduceAddresses fuel false s).map fun r => (out ++ r.1, r.2)
              else if b = 93 then some (out ++ [93], s)
              else none

/-- Reduce the addresses. -/
def reduceAddressArray : ℕ → Bytes → Option (Bytes × Bytes)
  | 0, _ => none
  | fuel + 1, s =>
      let s := skipBlank s
      if s.head? = some 110 then (skipNull s).map fun rest => (Utf8.encode "null", rest)
      else if s.head? ≠ some 91 then none
      else if (skipBlank s.tail).head? = some 93 then some ([91, 93], (skipBlank s.tail).tail)
      else (reduceAddresses fuel true (skipBlank s.tail)).map fun r => (91 :: r.1, r.2)

end

/-- Reduce a profile. -/
def reduceProfileJson (input : Bytes) : Option Bytes :=
  let s := skipBlank input
  let value :=
    if s.head? = some 110 then (skipNull s).map fun rest => (Utf8.encode "null", rest)
    else if s.head? = some 123 then reduceObject serde (2 * s.length + 2) false s
    else none
  (value.filter fun r => atEnd r.2).map Prod.fst

/-! ### Records -/

/-- A text that `null` leaves as it is. -/
def readScalar (target : String) : Json → Option String
  | .null => some target
  | .string text => some text
  | _ => none

/-- A text or `null`. -/
def readOptional : Json → Option (Option String)
  | .null => some none
  | .string text => some (some text)
  | _ => none

/-- Texts or `null`. -/
def readStrings : Json → Option (List String)
  | .null => some []
  | .array items => items.mapM (readScalar "")
  | _ => none

/-- A whole number within 64 bits; `null` leaves what there is. -/
def readInteger (target : ℤ) : Json → Option ℤ
  | .null => some target
  | v => v.asI64

/-- An object, member by member in the order of the text, or `null`. -/
def readRecord {ρ : Type} (record : ρ) (readField : ρ → String → Json → Option ρ) :
    Json → Option ρ
  | .null => some record
  | .object fields => fields.foldlM (fun r f => readField r (foldName f.1) f.2) record
  | _ => none

/-- An address of nothing. -/
def emptyAddress : ProfileAddress := { street := "", city := "", postalCode := "", country := "" }

/-- A field of an address. -/
def addressField (r : ProfileAddress) (name : String) (v : Json) : Option ProfileAddress :=
  if name = "street" then (readScalar r.street v).map fun x => { r with street := x }
  else if name = "city" then (readScalar r.city v).map fun x => { r with city := x }
  else if name = "postal_code" then (readScalar r.postalCode v).map fun x => { r with postalCode := x }
  else if name = "country" then (readScalar r.country v).map fun x => { r with country := x }
  else if name = "state" then (readOptional v).map fun x => { r with state := x }
  else if name = "valid_from" then (readOptional v).map fun x => { r with validFrom := x }
  else if name = "valid_to" then (readOptional v).map fun x => { r with validTo := x }
  else some r

/-- Addresses or `null`. -/
def readAddresses : Json → Option (List ProfileAddress)
  | .null => some []
  | .array items => items.mapM (readRecord emptyAddress addressField)
  | _ => none

/-- A field of a profile. -/
def profileField (r : Profile) (name : String) (v : Json) : Option Profile :=
  if name = "full_name" then (readScalar r.fullName v).map fun x => { r with fullName := x }
  else if name = "name_variants" then (readStrings v).map fun x => { r with nameVariants := x }
  else if name = "date_of_birth" then (readOptional v).map fun x => { r with dateOfBirth := x }
  else if name = "addresses" then (readAddresses v).map fun x => { r with addresses := x }
  else if name = "email_addresses" then (readStrings v).map fun x => { r with emailAddresses := x }
  else if name = "phone_numbers" then (readStrings v).map fun x => { r with phoneNumbers := x }
  else if name = "jurisdictions" then (readStrings v).map fun x => { r with jurisdictions := x }
  else some r

/-- A field of a header. -/
def envelopeField (r : Envelope) (name : String) (v : Json) : Option Envelope :=
  if name = "version" then (readInteger r.version v).map fun x => { r with version := x }
  else if name = "nonce" then (readScalar r.nonce v).map fun x => { r with nonce := x }
  else if name = "algorithm" then (readScalar r.algorithm v).map fun x => { r with algorithm := x }
  else some r

/-- Decode a profile. -/
def decodeGoProfileJson (input : Bytes) : Option Profile :=
  (normalizeGoJson input).bind fun normalized =>
    (reduceProfileJson serde normalized).bind fun reduced =>
      (serde.fromSlice reduced).bind (readRecord { fullName := "" } profileField)

/-- Decode a header. -/
def parseEnvelope (header : Bytes) : Option Envelope :=
  (serde.fromSlice header).bind (readRecord ⟨0, "", ""⟩ envelopeField)

/-! ### What is written -/

/-- A text or `null`. -/
def optionValue : Option String → Json
  | none => .null
  | some text => .string text

/-- Texts as a value. -/
def stringsValue (texts : List String) : Json := .array (texts.map .string)

/-- An address as a value. -/
def addressValue (address : ProfileAddress) : Json :=
  .object [("street", .string address.street), ("city", .string address.city),
    ("postal_code", .string address.postalCode), ("country", .string address.country),
    ("state", optionValue address.state), ("valid_from", optionValue address.validFrom),
    ("valid_to", optionValue address.validTo)]

/-- The payload of a profile: every field is there, and empty lists are arrays. -/
def profileValue (profile : Profile) : Json :=
  .object [("full_name", .string profile.fullName),
    ("name_variants", stringsValue profile.nameVariants),
    ("date_of_birth", optionValue profile.dateOfBirth),
    ("addresses", .array (profile.addresses.map addressValue)),
    ("email_addresses", stringsValue profile.emailAddresses),
    ("phone_numbers", stringsValue profile.phoneNumbers),
    ("jurisdictions", stringsValue profile.jurisdictions)]

/-- A header as a value. -/
def envelopeValue (envelope : Envelope) : Json :=
  .object [("version", .int envelope.version), ("nonce", .string envelope.nonce),
    ("algorithm", .string envelope.algorithm)]

/-- The cipher: key, nonce, associated data, and text. -/
structure Cipher where
  encrypt : MasterKey → Bytes → Bytes → Bytes → Bytes
  decrypt : MasterKey → Bytes → Bytes → Bytes → Option Bytes

/-- The texts of the program, with its sealing and derivation of keys. -/
def profileCodec (cipher : Cipher) (derive : Derivation) : Codec where
  parseHeader := parseEnvelope serde
  header envelope := serde.toVec (envelopeValue envelope)
  decodeProfile := decodeGoProfileJson serde
  profilePlaintext profile := serde.toVecPretty (profileValue profile)
  encrypt := cipher.encrypt
  decrypt := cipher.decrypt
  derive := derive

/-! ### The digest of a profile -/

/-- A hexadecimal unit of four lower-case digits. -/
def unicodeEscape (n : ℕ) : List Char :=
  ['\\', 'u', Nat.digitChar (n / 4096 % 16), Nat.digitChar (n / 256 % 16),
    Nat.digitChar (n / 16 % 16), Nat.digitChar (n % 16)]

/-- A character in canonical form. -/
def canonicalChar (c : Char) : List Char :=
  if c = '"' then ['\\', '"']
  else if c = '\\' then ['\\', '\\']
  else if c.toNat = 8 then ['\\', 'b']
  else if c.toNat = 12 then ['\\', 'f']
  else if c = '\n' then ['\\', 'n']
  else if c = '\r' then ['\\', 'r']
  else if c = '\t' then ['\\', 't']
  else if c.toNat < 32 ∨ c.toNat = 127 then unicodeEscape c.toNat
  else if c.toNat < 128 then [c]
  else if c.toNat ≤ 0xffff then unicodeEscape c.toNat
  else
    let value := c.toNat - 0x10000
    unicodeEscape (0xd800 + value / 1024) ++ unicodeEscape (0xdc00 + value % 1024)

/-- A text in canonical form. -/
def canonicalString (text : String) : List Char :=
  '"' :: (text.toList.flatMap canonicalChar ++ ['"'])

section Canonical

variable (number : Json → List Char)

mutual

/-- JSON with a blank after commas and colons; `number` writes the numbers. -/
def canonicalValue : Json → List Char
  | .null => "null".toList
  | .bool b => (if b then "true" else "false").toList
  | .int n => number (.int n)
  | .float mantissa exponent => number (.float mantissa exponent)
  | .string text => canonicalString text
  | .array items => '[' :: (canonicalItems items ++ [']'])
  | .object fields => '\x7b' :: (canonicalMembers fields ++ ['\x7d'])

/-- The items of an array. -/
def canonicalItems : List Json → List Char
  | [] => []
  | v :: items =>
      canonicalValue v ++ if items = [] then [] else ',' :: ' ' :: canonicalItems items

/-- The members of an object. -/
def canonicalMembers : List (String × Json) → List Char
  | [] => []
  | (key, v) :: fields =>
      canonicalString key ++ ':' :: ' ' :: (canonicalValue v ++
        if fields = [] then [] else ',' :: ' ' :: canonicalMembers fields)

end

end Canonical

/-- The canonical form that is hashed, with the names sorted; a profile has no numbers. -/
def canonicalJson (profile : Profile) : List Char :=
  canonicalValue (fun _ => []) (goMapOrder (profileValue profile))

/-- The lower-case digits of the digest of the canonical form. -/
def hashProfile (sha256 : Bytes → Bytes) (profile : Profile) : String :=
  String.ofList (Hex.encode (sha256 (Utf8.encode (String.ofList (canonicalJson profile)))))

end EraseMe.Identity.Secrets
