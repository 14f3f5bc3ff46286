import EraseMe.Library.Calendar
import EraseMe.Library.Text

/-!
# Instants, durations and time layouts

A model of the parts of the `chrono` crate that deal with UTC instants.

* `DateTime` is an instant: seconds since 1970-01-01 and a fraction in nanoseconds.  A fraction of
  one second or more stands for a leap second, which is written `:60` and shares the seconds
  count of the second before it.
* `signedDurationSince`, `checkedAddSigned` are the subtraction and addition, in nanoseconds.
* A layout is a list of `Item`s, the directives of `strftime`.  `format` writes an instant and
  `parse` reads a text as `chrono` does: numbers may be preceded by white space, a literal space
  matches any amount of white space, a signed year may have any length, `%.f` is optional, and
  `%:z` accepts an offset with or without a colon.
-/

namespace Chrono

open Calendar Decimal Text

/-! ### Instants -/

/-- Nanoseconds in a second. -/
def nanosPerSecond : ℕ := 1000000000

/-- The instant `-262143-01-01 00:00:00`. -/
def minSecs : ℤ := -8334601228800

/-- The instant `+262142-12-31 23:59:59`. -/
def maxSecs : ℤ := 8210266876799

/-- A UTC instant in the range of the calendar. -/
structure DateTime where
  secs : ℤ
  nanos : ℕ
  secs_ge : minSecs ≤ secs
  secs_le : secs ≤ maxSecs
  nanos_lt : nanos < 2 * nanosPerSecond
  leap : nanosPerSecond ≤ nanos → secs % 60 = 59
  deriving DecidableEq

theorem DateTime.ext' {a b : DateTime} (hs : a.secs = b.secs) (hn : a.nanos = b.nanos) : a = b := by
  cases a; cases b; simp_all

/-- The instant with the given parts, if there is one. -/
def DateTime.ofParts? (secs : ℤ) (nanos : ℕ) : Option DateTime :=
  if h : minSecs ≤ secs ∧ secs ≤ maxSecs ∧ nanos < 2 * nanosPerSecond ∧
      (nanosPerSecond ≤ nanos → secs % 60 = 59) then
    some ⟨secs, nanos, h.1, h.2.1, h.2.2.1, h.2.2.2⟩
  else none

theorem isSome_ofParts? {secs : ℤ} {nanos : ℕ} (h : nanos < nanosPerSecond) :
    (DateTime.ofParts? secs nanos).isSome = true ↔ minSecs ≤ secs ∧ secs ≤ maxSecs := by
  rw [DateTime.ofParts?]
  split
  · next hparts => exact iff_of_true rfl ⟨hparts.1, hparts.2.1⟩
  · next hparts =>
    refine iff_of_false (by simp) fun hsecs => hparts ⟨hsecs.1, hsecs.2, by omega, fun hleap => ?_⟩
    omega

/-- The instant at a whole second. -/
def DateTime.ofSecs (secs : ℤ) (h : minSecs ≤ secs ∧ secs ≤ maxSecs) : DateTime :=
  ⟨secs, 0, h.1, h.2, by decide, fun hn => absurd hn (by decide)⟩

/-- The instant `1970-01-01 00:00:00`. -/
def epoch : DateTime := .ofSecs 0 (by decide)

theorem DateTime.ofParts?_self (t : DateTime) : DateTime.ofParts? t.secs t.nanos = some t := by
  rw [ofParts?, dif_pos ⟨t.secs_ge, t.secs_le, t.nanos_lt, t.leap⟩]

/-- Whole seconds since 1970. -/
def DateTime.timestamp (t : DateTime) : ℤ := t.secs

/-- The day. -/
def DateTime.date (t : DateTime) : Date := civilFromDays (t.secs / 86400)

/-- The year. -/
def DateTime.year (t : DateTime) : ℤ := t.date.year

/-- Seconds since midnight, not counting a leap second. -/
def DateTime.secOfDay (t : DateTime) : ℕ := (t.secs % 86400).toNat

/-- The hour. -/
def DateTime.hour (t : DateTime) : ℕ := t.secOfDay / 3600
/-- The minute. -/
def DateTime.minute (t : DateTime) : ℕ := t.secOfDay / 60 % 60

/-- The second as it is written: `60` in a leap second. -/
def DateTime.second (t : DateTime) : ℕ := t.secOfDay % 60 + t.nanos / nanosPerSecond

instance : LT DateTime := ⟨fun a b => a.secs < b.secs ∨ a.secs = b.secs ∧ a.nanos < b.nanos⟩
instance : LE DateTime := ⟨fun a b => a.secs < b.secs ∨ a.secs = b.secs ∧ a.nanos ≤ b.nanos⟩

theorem DateTime.lt_def (a b : DateTime) :
    a < b ↔ a.secs < b.secs ∨ a.secs = b.secs ∧ a.nanos < b.nanos := Iff.rfl

theorem DateTime.le_def (a b : DateTime) :
    a ≤ b ↔ a.secs < b.secs ∨ a.secs = b.secs ∧ a.nanos ≤ b.nanos := Iff.rfl

instance (a b : DateTime) : Decidable (a < b) :=
  inferInstanceAs (Decidable (a.secs < b.secs ∨ a.secs = b.secs ∧ a.nanos < b.nanos))

instance (a b : DateTime) : Decidable (a ≤ b) :=
  inferInstanceAs (Decidable (a.secs < b.secs ∨ a.secs = b.secs ∧ a.nanos ≤ b.nanos))

instance : LinearOrder DateTime where
  le_refl a := by simp [DateTime.le_def]
  le_trans a b c := by simp only [DateTime.le_def]; omega
  lt_iff_le_not_ge a b := by simp only [DateTime.le_def, DateTime.lt_def]; omega
  le_antisymm a b hab hba := by
    simp only [DateTime.le_def] at hab hba
    exact DateTime.ext' (by omega) (by omega)
  le_total a b := by simp only [DateTime.le_def]; omega
  toDecidableLE := inferInstance
  toDecidableEq := inferInstance
  toDecidableLT := inferInstance

/-- The instant without its fraction; a leap second stays one. -/
def DateTime.trunc (t : DateTime) : DateTime where
  secs := t.secs
  nanos := t.nanos / nanosPerSecond * nanosPerSecond
  secs_ge := t.secs_ge
  secs_le := t.secs_le
  nanos_lt := lt_of_le_of_lt (Nat.div_mul_le_self _ _) t.nanos_lt
  leap h := t.leap (le_trans h (Nat.div_mul_le_self _ _))

@[simp] theorem DateTime.trunc_secs (t : DateTime) : t.trunc.secs = t.secs := rfl

theorem DateTime.trunc_mono {a b : DateTime} (h : a ≤ b) : a.trunc ≤ b.trunc := by
  rcases h with h | ⟨hs, hn⟩
  · exact Or.inl h
  · exact Or.inr ⟨hs, Nat.mul_le_mul_right _ (Nat.div_le_div_right hn)⟩

/-! ### Durations, in nanoseconds -/

/-- `timestamp_nanos_opt`: the nanoseconds since the epoch, when they fit. -/
def DateTime.timestampNanosOpt (t : DateTime) : Option ℤ :=
  let n := t.secs * nanosPerSecond + t.nanos
  if -9223372036854775808 ≤ n ∧ n ≤ 9223372036854775807 then some n else none

/-- The time from `b` to `a`.  A leap second between the two times of day counts. -/
def DateTime.signedDurationSince (a b : DateTime) : ℤ :=
  let dateSecs := (a.secs / 86400 - b.secs / 86400) * 86400
  let timeSecs := a.secs % 86400 - b.secs % 86400
  let leap : ℤ :=
    if a.secs % 86400 > b.secs % 86400 ∧ nanosPerSecond ≤ b.nanos then 1
    else if a.secs % 86400 < b.secs % 86400 ∧ nanosPerSecond ≤ a.nanos then -1
    else 0
  (dateSecs + timeSecs + leap) * nanosPerSecond + (a.nanos - b.nanos)

/-- Whole seconds of a duration, toward zero. -/
def numSeconds (d : ℤ) : ℤ := d.tdiv nanosPerSecond

/-- Whole hours of a duration, toward zero. -/
def numHours (d : ℤ) : ℤ := (numSeconds d).tdiv 3600

/-- A duration of whole seconds. -/
def durationSeconds (n : ℤ) : ℤ := n * nanosPerSecond

/-- A duration of whole days. -/
def durationDays (n : ℤ) : ℤ := n * 86400 * nanosPerSecond

/-- Addition of a duration, undefined outside the calendar.  An instant in a leap second leaves
it when whole seconds are added. -/
def DateTime.checkedAddSigned (t : DateTime) (d : ℤ) : Option DateTime :=
  let addSecs := numSeconds d
  let addNanos := d.tmod nanosPerSecond
  let frac : ℤ := t.nanos
  let one : ℤ := nanosPerSecond
  if one ≤ frac ∧ ¬ (addSecs > 0 ∨ addNanos > 0 ∧ frac ≥ 2 * one - addNanos) ∧ ¬ addSecs < 0 then
    DateTime.ofParts? t.secs (frac + addNanos).toNat
  else
    let frac' := if one ≤ frac then frac - one else frac
    let secs' := if one ≤ frac ∧ ¬ (addSecs > 0 ∨ addNanos > 0 ∧ frac ≥ 2 * one - addNanos)
      then t.secs + 1 else t.secs
    let sum := frac' + addNanos
    DateTime.ofParts? (secs' + addSecs + sum / one) (sum % one).toNat

theorem numSeconds_durationDays (n : ℤ) : numSeconds (durationDays n) = n * 86400 := by
  rw [numSeconds, durationDays]
  exact Int.mul_tdiv_cancel _ (by decide)

/-- Whole days later it is the same time of day.  Leap seconds count for the second before them going
forward and for the one after them going back. -/
theorem checkedAddSigned_days (t : DateTime) (n : ℤ) :
    t.checkedAddSigned (durationDays n) =
      if nanosPerSecond ≤ t.nanos ∧ n = 0 then some t
      else DateTime.ofParts?
        (t.secs + n * 86400 + if nanosPerSecond ≤ t.nanos ∧ n < 0 then 1 else 0)
        (t.nanos % nanosPerSecond) := by
  have hnanos : (durationDays n).tmod nanosPerSecond = 0 := by
    rw [durationDays]
    exact Int.mul_tmod_left _ _
  have hlt := t.nanos_lt
  have hleap : ((nanosPerSecond : ℤ) ≤ t.nanos) ↔ nanosPerSecond ≤ t.nanos := by omega
  rw [DateTime.checkedAddSigned]
  simp only [numSeconds_durationDays, hnanos, hleap, lt_irrefl, false_and, or_false, add_zero,
    gt_iff_lt]
  by_cases hl : nanosPerSecond ≤ t.nanos
  · have hmod : ((t.nanos : ℤ) - nanosPerSecond) % nanosPerSecond =
        (t.nanos : ℤ) - nanosPerSecond := by
      unfold nanosPerSecond at *
      omega
    have hdiv : ((t.nanos : ℤ) - nanosPerSecond) / nanosPerSecond = 0 := by
      unfold nanosPerSecond at *
      omega
    have hrest : ((t.nanos : ℤ) - nanosPerSecond).toNat = t.nanos % nanosPerSecond := by
      unfold nanosPerSecond at *
      omega
    simp only [hl, true_and, if_true, hmod, hdiv, hrest, add_zero]
    rcases lt_trichotomy n 0 with hn | rfl | hn
    · have hback : ¬ (¬ 0 < n * 86400 ∧ ¬ n * 86400 < 0) := by omega
      have hnext : ¬ 0 < n * 86400 := by omega
      rw [if_neg hback, if_pos hnext, if_neg hn.ne, if_pos hn, add_right_comm]
    · have hzero : ¬ (0 : ℤ) < 0 * 86400 ∧ ¬ (0 : ℤ) * 86400 < 0 := by omega
      rw [if_pos hzero, if_pos rfl, Int.toNat_natCast, t.ofParts?_self]
    · have hback : ¬ (¬ 0 < n * 86400 ∧ ¬ n * 86400 < 0) := by omega
      have hnext : ¬ ¬ 0 < n * 86400 := by omega
      rw [if_neg hback, if_neg hnext, if_neg hn.ne', if_neg hn.not_gt, add_zero]
  · have hdiv : (t.nanos : ℤ) / nanosPerSecond = 0 := by
      unfold nanosPerSecond at *
      omega
    have hrest : ((t.nanos : ℤ) % nanosPerSecond).toNat = t.nanos % nanosPerSecond := by
      omega
    simp only [hl, false_and, if_false, hdiv, hrest, add_zero]

/-- Whole days later is in the calendar if its second is. -/
theorem isSome_checkedAddSigned_days (t : DateTime) (n : ℤ) :
    (t.checkedAddSigned (durationDays n)).isSome = true ↔
      minSecs ≤ t.secs + n * 86400 + (if nanosPerSecond ≤ t.nanos ∧ n < 0 then 1 else 0) ∧
        t.secs + n * 86400 + (if nanosPerSecond ≤ t.nanos ∧ n < 0 then 1 else 0) ≤ maxSecs := by
  have hlo := t.secs_ge
  have hhi := t.secs_le
  rw [checkedAddSigned_days]
  by_cases hzero : nanosPerSecond ≤ t.nanos ∧ n = 0
  · obtain ⟨hleap, rfl⟩ := hzero
    rw [if_pos ⟨hleap, rfl⟩, if_neg (fun h => lt_irrefl _ h.2)]
    exact iff_of_true rfl ⟨by omega, by omega⟩
  · rw [if_neg hzero, isSome_ofParts? (Nat.mod_lt _ (by decide))]

/-! ### Layouts -/

/-- The directives of a layout. -/
inductive Item
  | literal (c : Char)
  | space
  | year
  | yearMod100
  | month
  | monthName
  | day
  | hour
  | minute
  | second
  | fraction
  | offset
  deriving DecidableEq, Repr

/-- The names of the months. -/
def monthNames : List (List Char) :=
  ["Jan", "Feb", "Mar", "Apr", "May", "Jun", "Jul", "Aug", "Sep", "Oct", "Nov", "Dec"].map
    String.toList

/-- A year: four digits in `0..9999`, otherwise a sign and at least four digits. -/
def formatYear (y : ℤ) : List Char :=
  if 0 ≤ y ∧ y < 10000 then fixed 4 y.toNat
  else
    (if y < 0 then '-' else '+') ::
      fixed (if y.natAbs < 10000 then 4 else if y.natAbs < 100000 then 5 else 6) y.natAbs

/-- `%.f`: nothing, or three, six or nine digits after a dot. -/
def formatFraction (nanos : ℕ) : List Char :=
  let n := nanos % nanosPerSecond
  if n = 0 then []
  else if n % 1000000 = 0 then '.' :: fixed 3 (n / 1000000)
  else if n % 1000 = 0 then '.' :: fixed 6 (n / 1000)
  else '.' :: fixed 9 n

/-- Write one item. -/
def Item.format (t : DateTime) : Item → List Char
  | .literal c => [c]
  | .space => [' ']
  | .year => formatYear t.year
  | .yearMod100 => fixed 2 (t.year % 100).toNat
  | .month => fixed 2 t.date.month
  | .monthName => monthNames.getD (t.date.month - 1) []
  | .day => fixed 2 t.date.day
  | .hour => fixed 2 t.hour
  | .minute => fixed 2 t.minute
  | .second => fixed 2 t.second
  | .fraction => formatFraction t.nanos
  | .offset => "+00:00".toList

/-- Write an instant by a layout. -/
def format (layout : List Item) (t : DateTime) : List Char := layout.flatMap (Item.format t)

/-- The fields read so far. -/
structure Parsed where
  year : Option ℤ := none
  yearMod100 : Option ℕ := none
  month : Option ℕ := none
  day : Option ℕ := none
  hour : Option ℕ := none
  minute : Option ℕ := none
  second : Option ℕ := none
  nanosecond : Option ℕ := none
  offset : Option ℤ := none
  deriving DecidableEq, Repr

/-- The largest 64-bit integer. -/
def i64Max : ℕ := 9223372036854775807
/-- The largest 32-bit integer. -/
def i32Max : ℕ := 2147483647

/-- An unsigned field of at most two digits, in a range. -/
def twoDigits (lo hi : ℕ) (s : List Char) : Option (ℕ × List Char) :=
  (number i64Max 2 (trimStart s)).bind fun (v, s) => if lo ≤ v ∧ v ≤ hi then some (v, s) else none

/-- `%Y`: at most four digits, or a sign and any number of digits. -/
def readYear (s : List Char) : Option (ℤ × List Char) :=
  let signed (sign : ℤ) (s : List Char) : Option (ℤ × List Char) :=
    (number i64Max s.length s).bind fun (v, s) =>
      if v ≤ i32Max then some (sign * v, s) else none
  match trimStart s with
  | '-' :: s => signed (-1) s
  | '+' :: s => signed 1 s
  | s => (number i64Max 4 s).map fun (v, s) => ((v : ℤ), s)

/-- The digits after the dot of `%.f`: the first nine count. -/
def readNanos (s : List Char) : Option (ℕ × List Char) :=
  (number i64Max 9 s).map fun (v, rest) =>
    (v * 10 ^ (9 - (s.length - rest.length)), rest.dropWhile Char.isDigit)

/-- Two digits, the first of them at most `hi`. -/
def digitPair (hi : ℕ) : List Char → Option (ℕ × List Char)
  | a :: b :: s =>
      if a.isDigit ∧ b.isDigit ∧ value a ≤ hi then some (value a * 10 + value b, s) else none
  | _ => none

/-- `%:z`: a sign, hours, optional colons or white space, minutes; in seconds. -/
def readOffset (s : List Char) : Option (ℤ × List Char) :=
  let unsigned (sign : ℤ) (s : List Char) : Option (ℤ × List Char) :=
    (digitPair 9 s).bind fun (hours, s) =>
      (digitPair 5 (s.dropWhile fun c => c == ':' || isWhitespace c)).map fun (minutes, s) =>
        (sign * (hours * 3600 + minutes * 60 : ℕ), s)
  match trimStart s with
  | '+' :: s => unsigned 1 s
  | '-' :: s => unsigned (-1) s
  | '−' :: s => unsigned (-1) s
  | _ => none

/-- `%b`: a month name by its first three letters, in any case. -/
def readMonthName (s : List Char) : Option (ℕ × List Char) :=
  let i := monthNames.findIdx fun name => name.map Char.toLower == (s.take 3).map Char.toLower
  if i < 12 then some (i + 1, s.drop 3) else none

/-- Read one item. -/
def Item.parse (p : Parsed) (s : List Char) : Item → Option (Parsed × List Char)
  | .literal c => match s with
    | [] => none
    | d :: s => if c = d then some (p, s) else none
  | .space => some (p, trimStart s)
  | .year => (readYear s).map fun (v, s) => ({ p with year := some v }, s)
  | .yearMod100 => (twoDigits 0 99 s).map fun (v, s) => ({ p with yearMod100 := some v }, s)
  | .month => (twoDigits 1 12 s).map fun (v, s) => ({ p with month := some v }, s)
  | .monthName => (readMonthName s).map fun (v, s) => ({ p with month := some v }, s)
  | .day => (twoDigits 1 31 s).map fun (v, s) => ({ p with day := some v }, s)
  | .hour => (twoDigits 0 23 s).map fun (v, s) => ({ p with hour := some v }, s)
  | .minute => (twoDigits 0 59 s).map fun (v, s) => ({ p with minute := some v }, s)
  | .second => (twoDigits 0 60 s).map fun (v, s) => ({ p with second := some v }, s)
  | .fraction => match s with
    | '.' :: s => (readNanos s).map fun (v, s) => ({ p with nanosecond := some v }, s)
    | s => some (p, s)
  | .offset => (readOffset s).map fun (v, s) => ({ p with offset := some v }, s)

/-- Read the items of a layout one after the other. -/
def parseItems : List Item → Parsed → List Char → Option (Parsed × List Char)
  | [], p, s => some (p, s)
  | item :: layout, p, s => (item.parse p s).bind fun (p, s) => parseItems layout p s

/-- Read a whole text by a layout. -/
def parseFields (layout : List Item) (s : List Char) : Option Parsed :=
  match parseItems layout {} s with
  | some (p, []) => some p
  | _ => none

/-- The date of the fields read; a two-digit year lies in `1970..2069`. -/
def Parsed.toDate (p : Parsed) : Option Date := do
  let year ← p.year <|> p.yearMod100.map fun r => if r < 70 then 2000 + (r : ℤ) else 1900 + (r : ℤ)
  let month ← p.month
  let day ← p.day
  let c : Date := ⟨year, month, day⟩
  if c.Valid ∧ minSecs ≤ daysFromCivil c * 86400 ∧ daysFromCivil c * 86400 ≤ maxSecs then
    some c
  else none

/-- The second of the day and the nanoseconds of the fields read. -/
def Parsed.toTime (p : Parsed) : Option (ℕ × ℕ) := do
  let hour ← p.hour
  let minute ← p.minute
  let second := p.second.getD 0
  let nanos := p.nanosecond.getD 0
  if second = 60 then some (hour * 3600 + minute * 60 + 59, nanosPerSecond + nanos)
  else some (hour * 3600 + minute * 60 + second, nanos)

/-- The wall-clock reading of the fields read, as a UTC instant. -/
def Parsed.toNaive (p : Parsed) : Option DateTime := do
  let date ← p.toDate
  let (sod, nanos) ← p.toTime
  DateTime.ofParts? (daysFromCivil date * 86400 + sod) nanos

/-- The instant of the fields read, by their offset. -/
def Parsed.toUtc (p : Parsed) : Option DateTime := do
  let naive ← p.toNaive
  let offset ← p.offset
  if -86400 < offset ∧ offset < 86400 then
    DateTime.ofParts? (naive.secs - offset) naive.nanos
  else none

/-- `NaiveDateTime::parse_from_str`, read in UTC. -/
def parseNaive (layout : List Item) (s : List Char) : Option DateTime :=
  (parseFields layout s).bind Parsed.toNaive

/-- `DateTime::parse_from_str`, converted to UTC. -/
def parseOffset (layout : List Item) (s : List Char) : Option DateTime :=
  (parseFields layout s).bind Parsed.toUtc

/-- `NaiveDate::parse_from_str`, at midnight in UTC. -/
def parseDate (layout : List Item) (s : List Char) : Option DateTime := do
  let date ← (parseFields layout s).bind Parsed.toDate
  DateTime.ofParts? (daysFromCivil date * 86400) 0

/-! ### RFC 3339 -/

/-- A number of exactly `n` digits. -/
def exactDigits (n : ℕ) (s : List Char) : Option (ℕ × List Char) :=
  if (s.take n).length = n ∧ (s.take n).all Char.isDigit then
    some ((s.take n).foldl (fun v c => v * 10 + value c) 0, s.drop n)
  else none

/-- The rest of a text that starts with one of the characters. -/
def expect (allowed : List Char) : List Char → Option (List Char)
  | c :: s => if c ∈ allowed then some s else none
  | [] => none

/-- `Z`, or a sign, hours, a colon and minutes; in seconds, less than a day. -/
def readRfc3339Offset : List Char → Option (ℤ × List Char)
  | [] => none
  | c :: s =>
      if c = 'Z' ∨ c = 'z' then some (0, s)
      else do
        let sign : ℤ ← if c = '+' then some 1 else if c = '-' ∨ c = '−' then some (-1) else none
        let (hours, s) ← digitPair 9 s
        let (minutes, s) ← digitPair 5 (← expect [':'] s)
        if hours * 3600 + minutes * 60 < 86400 then
          some (sign * (hours * 3600 + minutes * 60 : ℕ), s)
        else none

/-- `DateTime::parse_from_rfc3339`: the wall-clock reading, as a UTC instant, and its offset. -/
def parseRfc3339 (s : List Char) : Option (DateTime × ℤ) := do
  let (year, s) ← exactDigits 4 s
  let (month, s) ← exactDigits 2 (← expect ['-'] s)
  let (day, s) ← exactDigits 2 (← expect ['-'] s)
  let (hour, s) ← exactDigits 2 (← expect ['T', 't', ' '] s)
  let (minute, s) ← exactDigits 2 (← expect [':'] s)
  let (second, s) ← exactDigits 2 (← expect [':'] s)
  let (nanos, s) ← match s with
    | '.' :: s => (readNanos s).map fun (v, s) => (some v, s)
    | s => some (none, s)
  let (offset, s) ← readRfc3339Offset s
  if s ≠ [] ∨ hour > 23 ∨ minute > 59 ∨ second > 60 then none
  let fields : Parsed :=
    { year := some year, month := some month, day := some day, hour := some hour,
      minute := some minute, second := some second, nanosecond := nanos }
  let reading ← fields.toNaive
  some (reading, offset)

end Chrono
