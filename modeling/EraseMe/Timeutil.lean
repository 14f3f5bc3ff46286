import EraseMe.Library.ChronoText
import EraseMe.Library.Utf8Text

/-!
# `timeutil`: timestamps of the event store

Parsing follows the accepted layouts in the order the source tries them: the ISO forms with an
offset (`T` or space separator), the ISO forms without one (read as UTC), RFC 1123 with a numeric
or an alphabetic zone, and RFC 850.  `formatSql` and `formatIso` write the two forms the store
produces.

* `parse_formatSql`, `parse_formatIso`: both forms read back as the instant without its fraction;
* `formatSql_lt_iff`: in the years `0..9999` the SQL form sorts as the instants do.
-/

namespace EraseMe.Timeutil

open Chrono Decimal Text

/-- The two observable classes of timestamp parse failure. -/
inductive TimestampError
  | empty
  | malformed
  deriving DecidableEq, Repr

/-! ### Layouts -/

/-- The layouts with an offset, in the order they are tried. -/
def offsetLayouts : List (List Item) :=
  [wall (.literal 'T') ++ [.fraction, .offset], wall .space ++ [.fraction, .offset],
    wall (.literal 'T') ++ [.offset], wall .space ++ [.offset]]

/-- The layouts without an offset. -/
def naiveLayouts : List (List Item) :=
  [wall (.literal 'T') ++ [.fraction], wall .space ++ [.fraction], wall (.literal 'T'),
    wall .space]

/-- `%d %b %Y %H:%M:%S`, `%d-%b-%y %H:%M:%S`. -/
def rfc1123Layout : List Item :=
  [.day, .space, .monthName, .space, .year, .space, .hour, .literal ':', .minute, .literal ':',
    .second]

def rfc850Layout : List Item :=
  [.day, .literal '-', .monthName, .literal '-', .yearMod100, .space, .hour, .literal ':', .minute,
    .literal ':', .second]

/-! ### The RFC forms -/

def weekdays : List (List Char) :=
  ["Mon", "Tue", "Wed", "Thu", "Fri", "Sat", "Sun"].map String.toList

def longWeekdays : List (List Char) :=
  ["Monday", "Tuesday", "Wednesday", "Thursday", "Friday", "Saturday", "Sunday"].map String.toList

/-- The text when the part before its first comma is one of `names`. -/
def weekdayPrefix (names : List (List Char)) (input : List Char) : Option (List Char) := do
  let (weekday, _) ← splitOnce ',' input
  if weekday ∈ names then some input else none

def rfc1123Prefix : List Char → Option (List Char) := weekdayPrefix weekdays

def rfc850Prefix : List Char → Option (List Char) := weekdayPrefix longWeekdays

def withoutWeekday (s : List Char) : Option (List Char) := do
  let (_, rest) ← splitOnce ',' s
  some (trim rest)

/-- The text before a three-letter zone. -/
def rfcPrefix (input : List Char) : Option (List Char) := do
  let (head, zone) ← rsplitOnce ' ' input
  if zone.all isAsciiAlphabetic ∧ zone.length = 3 then some head else none

/-- A layout tried with a fraction after it and then without. -/
def parseWithFraction (layout : List Item) (value : List Char) : Option DateTime :=
  let value := value.map fun c => if c = ',' then '.' else c
  parseNaive (layout ++ [.fraction]) value <|> parseNaive layout value

/-- Two characters as `i64::from_str` reads them. -/
def readSigned2 : Char → Char → Option ℤ
  | a, b =>
      if ¬ b.isDigit then none
      else if a.isDigit then some (value a * 10 + value b : ℕ)
      else if a = '+' then some (value b)
      else if a = '-' then some (-(value b : ℤ))
      else none

/-- `±HHMM` in seconds; 24 hours and 60 minutes are accepted. -/
def parseNumericOffset : List Char → Option ℤ
  | [sign, a, b, c, d] => do
      if sign ≠ '+' ∧ sign ≠ '-' then none
      let hours ← readSigned2 a b
      let minutes ← readSigned2 c d
      if hours > 24 ∨ minutes > 60 then none
      let seconds := hours * 3600 + minutes * 60
      some (if sign = '-' then -seconds else seconds)
  | _ => none

/-- With an offset in digits. -/
def parseRfc1123Numeric (input : List Char) : Option DateTime := do
  let (head, zone) ← rsplitOnce ' ' input
  let head ← withoutWeekday (← rfc1123Prefix head)
  let value ← parseWithFraction rfc1123Layout head
  let zone ← parseNumericOffset zone
  value.checkedAddSigned (durationSeconds (-zone))

/-- With a zone in letters. -/
def parseRfc1123Alpha (input : List Char) : Option DateTime := do
  let head ← rfcPrefix input
  let head ← withoutWeekday (← rfc1123Prefix head)
  parseWithFraction rfc1123Layout head

/-- A three-letter zone, or a sign and at most 23 hours. -/
def validRfc850Zone (zone : List Char) : Bool :=
  if zone.length = 3 ∧ zone.all isAsciiAlphabetic then true
  else match zone with
    | sign :: digits =>
        (sign = '+' ∨ sign = '-') ∧ digits ≠ [] ∧ digits.all Char.isDigit ∧
          digits.foldl (fun n c => n * 10 + value c) 0 ≤ 23
    | [] => false

/-- The two-digit year again, with the pivot 69. -/
def rfc850Year (value : DateTime) : ℤ :=
  if value.year % 100 ≥ 69 then 1900 + value.year % 100 else 2000 + value.year % 100

/-- With two digits of the year. -/
def parseRfc850 (input : List Char) : Option DateTime := do
  let (head, zone) ← rsplitOnce ' ' input
  let head ← withoutWeekday (← rfc850Prefix head)
  let value ← parseWithFraction rfc850Layout head
  if ¬ validRfc850Zone zone then none
  let date := { value.date with year := rfc850Year value }
  if date.Valid then
    DateTime.ofParts? (Calendar.daysFromCivil date * 86400 + value.secOfDay) value.nanos
  else none

/-! ### The parser -/

/-- A comma after `:dd` is read as the decimal point of a fraction. -/
def normalizeCommaFraction (s : List Char) : List Char :=
  s.mapIdx fun i c =>
    if 3 ≤ i ∧ c = ',' ∧ (s[i - 1]?.any Char.isDigit) ∧ (s[i - 2]?.any Char.isDigit) ∧
      s[i - 3]? = some ':' then '.' else c

/-- A final `Z` is written as a zero offset. -/
def normalizeZ (s : List Char) : List (List Char) :=
  if s.getLast? = some 'Z' then [s.dropLast ++ "+00:00".toList] else []

/-- The first layout that reads the text. -/
def firstLayout (read : List Item → List Char → Option DateTime) (layouts : List (List Item))
    (s : List Char) : Option DateTime :=
  layouts.findSome? fun layout => read layout s

/-- The instant of a text without surrounding white space. -/
def parseTrimmed (input : List Char) : Option DateTime :=
  let fraction := normalizeCommaFraction input
  (normalizeZ fraction ++ [fraction, input]).findSome? (firstLayout parseOffset offsetLayouts) <|>
    firstLayout parseNaive naiveLayouts fraction <|>
    parseRfc1123Numeric input <|> parseRfc1123Alpha input <|> parseRfc850 input

/-- Parse an accepted timestamp and return its instant in UTC. -/
def parse (input : String) : Except TimestampError DateTime :=
  let input := trim input.toList
  if input = [] then .error .empty
  else match parseTrimmed input with
    | some t => .ok t
    | none => .error .malformed

/-- Any of the layouts. -/
def parseTimestamp (input : String) : Except TimestampError DateTime := parse input

/-- Canonical UTC ISO text with seconds precision. -/
def formatIso (t : DateTime) : String :=
  String.ofList (format (wall (.literal 'T') ++ "+00:00".toList.map Item.literal) t)

/-- The UTC SQLite wall-clock form with seconds precision. -/
def formatSql (t : DateTime) : String := String.ofList (format (wall (.literal ' ')) t)

/-- The SQL form as its stored octets. -/
def formatSqlBytes (t : DateTime) : List UInt8 := Utf8.encode (formatSql t)

/-! ### The written forms read back -/

theorem normalizeCommaFraction_eq_self {s : List Char} (h : ',' ∉ s) :
    normalizeCommaFraction s = s := by
  refine List.ext_getElem (by simp [normalizeCommaFraction]) fun i hi hi' => ?_
  simp only [normalizeCommaFraction, List.getElem_mapIdx]
  rw [if_neg]
  rintro ⟨-, hc, -⟩
  exact h (hc ▸ List.getElem_mem hi')

theorem comma_notMem_format_wall {t : DateTime} {d : Char} (hd : d ≠ ',') :
    ',' ∉ format (wall (.literal d)) t := by
  intro h
  rcases mem_format_wall h with h | h | h | h | h
  · exact absurd h (by decide)
  · exact absurd h (by decide)
  · exact absurd h (by decide)
  · exact absurd h (by decide)
  · exact hd h.symm

theorem digit_ne_Z (n : ℕ) : digit n ≠ 'Z' := by
  intro h
  have := isDigit_digit n
  rw [h] at this
  exact absurd this (by decide)

theorem normalizeZ_eq_nil {s : List Char} {n : ℕ} (h : s.getLast? = some (digit n)) :
    normalizeZ s = [] := by
  rw [normalizeZ, if_neg]
  rw [h]
  simpa using digit_ne_Z n

/-- A text that trims to itself and has no comma fraction is read as it stands. -/
theorem parse_ofList {s : List Char} {n : ℕ} {t : DateTime} (hne : s ≠ []) (htrim : trim s = s)
    (hlast : s.getLast? = some (digit n)) (hcomma : ',' ∉ s)
    (hread : firstLayout parseOffset offsetLayouts s = some t ∨
      firstLayout parseOffset offsetLayouts s = none ∧
        firstLayout parseNaive naiveLayouts s = some t) :
    parse (String.ofList s) = .ok t := by
  have hparse : parseTrimmed s = some t := by
    rw [parseTrimmed, normalizeCommaFraction_eq_self hcomma, normalizeZ_eq_nil hlast]
    rcases hread with h | ⟨h, h'⟩
    · simp [h]
    · simp [h, h']
  rw [parse, String.toList_ofList, htrim]
  simp only [hne, if_false, hparse]

/-- The SQL form reads back as the instant without its fraction. -/
theorem parse_formatSql (t : DateTime) : parse (formatSql t) = .ok t.trunc := by
  obtain ⟨c, s, hs, hc⟩ := head?_format_wall (.literal ' ') t
  have hlast := getLast?_format_wall (.literal ' ') t
  have htrim : trim (format (wall (.literal ' ')) t) = format (wall (.literal ' ')) t := by
    rw [hs]
    exact trim_eq_self hc (isWhitespace_of_isDigit (isDigit_digit _)) (hs ▸ hlast)
  -- the layouts with a `T` stop at the separator, those with an offset at the end of the text
  have hT : ∀ layout, parseItems (wall (.literal 'T') ++ layout) {}
      (format (wall (.literal ' ')) t) = none := fun layout => by
    have := parseItems_wall_ne (show 'T' ≠ ' ' by decide) t layout []
    rwa [List.append_nil] at this
  have hspace : ∀ layout, parseItems (wall .space ++ layout) {} (format (wall (.literal ' ')) t) =
      parseItems layout (Parsed.ofWall t) [] := fun layout => by
    have := parseItems_wall separates_space t layout []
    rwa [List.append_nil] at this
  refine parse_ofList (by rw [hs]; simp) htrim hlast (comma_notMem_format_wall (by decide))
    (Or.inr ⟨?_, ?_⟩)
  · simp only [firstLayout, offsetLayouts, List.findSome?_cons, List.findSome?_nil, parseOffset,
      parseFields, hT, hspace, Option.bind_none]
    rfl
  · have hnone : parseNaive (wall (.literal 'T') ++ [.fraction])
        (format (wall (.literal ' ')) t) = none := by
      rw [parseNaive, parseFields, hT]
      rfl
    have hsome : parseNaive (wall .space ++ [.fraction]) (format (wall (.literal ' ')) t) =
        some t.trunc := by
      rw [parseNaive, parseFields, hspace]
      exact toNaive_ofWall t
    simp only [firstLayout, naiveLayouts, List.findSome?_cons, hnone, hsome]

theorem formatIso_eq (t : DateTime) :
    formatIso t = String.ofList (format (wall (.literal 'T')) t ++ "+00:00".toList) := by
  rw [formatIso, format, format, List.flatMap_append]
  rfl

/-- The ISO form reads back as the instant without its fraction. -/
theorem parse_formatIso (t : DateTime) : parse (formatIso t) = .ok t.trunc := by
  obtain ⟨c, s, hs, hc⟩ := head?_format_wall (.literal 'T') t
  have hlast : (format (wall (.literal 'T')) t ++ "+00:00".toList).getLast? =
      some (digit 0) := by
    rw [List.getLast?_append]
    rfl
  have htrim : trim (format (wall (.literal 'T')) t ++ "+00:00".toList) =
      format (wall (.literal 'T')) t ++ "+00:00".toList := by
    rw [hs] at hlast ⊢
    exact trim_eq_self hc (isWhitespace_of_isDigit (isDigit_digit _)) hlast
  have hcomma : ',' ∉ format (wall (.literal 'T')) t ++ "+00:00".toList := by
    rw [List.mem_append, not_or]
    exact ⟨comma_notMem_format_wall (by decide), by decide⟩
  have hutc : ({ Parsed.ofWall t with offset := some 0 } : Parsed).toUtc = some t.trunc := by
    have hnaive : ({ Parsed.ofWall t with offset := some 0 } : Parsed).toNaive = some t.trunc :=
      toNaive_ofWall t
    rw [Parsed.toUtc, hnaive]
    simp only [Option.bind_eq_bind, Option.bind_some, sub_zero]
    exact DateTime.ofParts?_self t.trunc
  have hsome : parseOffset (wall (.literal 'T') ++ [.fraction, .offset])
      (format (wall (.literal 'T')) t ++ "+00:00".toList) = some t.trunc := by
    rw [parseOffset, parseFields, parseItems_wall (separates_literal 'T')]
    exact hutc
  rw [formatIso_eq]
  refine parse_ofList (by rw [hs]; simp) htrim hlast hcomma (Or.inl ?_)
  simp only [firstLayout, offsetLayouts, List.findSome?_cons, hsome]

/-! ### Order of the SQL form -/

/-- In the years `0..9999` the SQL form sorts as the instants without their fractions do. -/
theorem formatSql_lt_iff {a b : DateTime} (ha : FourDigitYear a) (hb : FourDigitYear b) :
    formatSql a < formatSql b ↔ a.trunc < b.trunc := by
  rw [String.lt_iff_toList_lt, formatSql, formatSql, String.toList_ofList, String.toList_ofList]
  exact format_wall_lt_iff ha hb rfl

/-- The SQL form determines the instant without its fraction. -/
theorem formatSql_mono {a b : DateTime} (ha : FourDigitYear a) (hb : FourDigitYear b)
    (h : a ≤ b) : formatSql a ≤ formatSql b :=
  not_lt.1 fun hlt => not_lt.2 (DateTime.trunc_mono h) ((formatSql_lt_iff hb ha).1 hlt)

/-! ### Order of the octets -/

theorem ascii_format_wall {t : DateTime} {c d : Char} (hd : d.toNat < 128)
    (h : c ∈ format (wall (.literal d)) t) : c.toNat < 128 := by
  rcases mem_format_wall h with h | rfl | rfl | rfl | rfl
  · have := (isDigit_iff c).1 h
    omega
  · decide
  · decide
  · decide
  · exact hd

/-- Texts of one layout with the same end are ordered as octets like the instants. -/
theorem encode_format_wall_le_iff {a b : DateTime} (ha : FourDigitYear a) (hb : FourDigitYear b)
    {d : Char} (hd : d.toNat < 128) (rest : List Char) (hrest : ∀ c ∈ rest, c.toNat < 128) :
    Utf8.encode (String.ofList (format (wall (.literal d)) a ++ rest)) ≤
        Utf8.encode (String.ofList (format (wall (.literal d)) b ++ rest)) ↔
      a.trunc ≤ b.trunc := by
  have hascii (t : DateTime) : ∀ c ∈ format (wall (.literal d)) t ++ rest, c.toNat < 128 := by
    intro c hc
    rcases List.mem_append.1 hc with hc | hc
    · exact ascii_format_wall hd hc
    · exact hrest c hc
  have hlen : (format (wall (.literal d)) b).length = (format (wall (.literal d)) a).length := by
    have hyear {t : DateTime} (ht : FourDigitYear t) : formatYear t.year = fixed 4 t.year.toNat :=
      if_pos ⟨ht.1, Int.lt_of_le_of_lt ht.2 (by decide)⟩
    rw [format_wall, format_wall, hyear ha, hyear hb]
    simp
  rw [← List.not_lt, Utf8.encode_lt_encode_iff (hascii b) (hascii a),
    append_lt_append_iff hlen, format_wall_lt_iff hb ha rfl]
  have hself : ¬ rest < rest := lt_irrefl rest
  simp only [hself, and_false, or_false, not_lt]

/-- Both forms read back as the instant without its fraction, and in the years `0..9999` their
octets sort as the instants do. -/
theorem stored_forms {a b : DateTime} (ha : FourDigitYear a) (hb : FourDigitYear b) :
    parse (formatIso a) = .ok a.trunc ∧ parse (formatSql a) = .ok a.trunc ∧
      (formatSqlBytes a ≤ formatSqlBytes b ↔ a.trunc ≤ b.trunc) ∧
      (Utf8.encode (formatIso a) ≤ Utf8.encode (formatIso b) ↔ a.trunc ≤ b.trunc) := by
  refine ⟨parse_formatIso a, parse_formatSql a, ?_, ?_⟩
  · have h := encode_format_wall_le_iff ha hb (show ' '.toNat < 128 by decide) [] (by simp)
    rwa [List.append_nil, List.append_nil] at h
  · rw [formatIso_eq, formatIso_eq]
    exact encode_format_wall_le_iff ha hb (by decide) _ (by decide)

/-- `2024-02-29 23:59:59`. -/
def leapDay : DateTime := .ofSecs 1709251199 (by decide)

/-- `0000-01-01 00:00:00`. -/
def yearZero : DateTime := .ofSecs (-62167219200) (by decide)

theorem stored_forms_leapDay :
    parse (formatIso leapDay) = .ok leapDay ∧ parse (formatSql leapDay) = .ok leapDay ∧
      (formatSqlBytes leapDay ≤ formatSqlBytes yearZero ↔ leapDay ≤ yearZero) ∧
      (Utf8.encode (formatIso leapDay) ≤ Utf8.encode (formatIso yearZero) ↔
        leapDay ≤ yearZero) :=
  stored_forms (by decide) (by decide)

end EraseMe.Timeutil
