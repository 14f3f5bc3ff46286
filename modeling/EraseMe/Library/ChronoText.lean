import EraseMe.Library.Chrono

/-!
# Texts of instants

The layout `wall sep` is `%Y-%m-%d` and `%H:%M:%S` with a separator between them.  An instant
written by it reads back without its fraction (`toNaive_ofWall`, `parseItems_wall`), and in the
years `0..9999` the texts are ordered as the instants are (`format_wall_lt_iff`).
-/

namespace Chrono

open Calendar Decimal Text

/-- `%Y-%m-%d`, a separator, `%H:%M:%S`. -/
def wall (sep : Item) : List Item :=
  [.year, .literal '-', .month, .literal '-', .day, sep, .hour, .literal ':', .minute,
    .literal ':', .second]

theorem format_wall (sep : Item) (t : DateTime) :
    format (wall sep) t = formatYear t.year ++ '-' :: (fixed 2 t.date.month ++ '-' ::
      (fixed 2 t.date.day ++ (sep.format t ++ (fixed 2 t.hour ++ ':' ::
        (fixed 2 t.minute ++ ':' :: fixed 2 t.second))))) := by
  simp only [format, wall, List.flatMap_cons, List.flatMap_nil, List.append_nil]
  rfl

/-! ### Ranges of the fields -/

section Fields

variable (t : DateTime)

theorem date_valid : t.date.Valid := civilFromDays_valid _

theorem month_bounds : 1 ≤ t.date.month ∧ t.date.month ≤ 12 :=
  ⟨(date_valid t).month_pos, (date_valid t).month_le⟩

theorem day_bounds : 1 ≤ t.date.day ∧ t.date.day ≤ 31 := by
  have h1 := (date_valid t).day_pos
  have h2 := (date_valid t).day_le
  unfold daysInMonth at h2
  split_ifs at h2 <;> omega

theorem secOfDay_lt : t.secOfDay < 86400 := by
  unfold DateTime.secOfDay
  omega

theorem hour_le : t.hour ≤ 23 := by
  have := secOfDay_lt t
  unfold DateTime.hour
  omega

theorem minute_le : t.minute ≤ 59 := by
  unfold DateTime.minute
  omega

/-- A leap second is the sixtieth second of its minute. -/
theorem second_cases : (t.nanos < nanosPerSecond ∧ t.second = t.secOfDay % 60) ∨
    (nanosPerSecond ≤ t.nanos ∧ t.nanos / nanosPerSecond = 1 ∧ t.secOfDay % 60 = 59 ∧
      t.second = 60) := by
  rcases lt_or_ge t.nanos nanosPerSecond with h | h
  · exact Or.inl ⟨h, by simp [DateTime.second, Nat.div_eq_of_lt h]⟩
  · have hone : t.nanos / nanosPerSecond = 1 := by
      have := t.nanos_lt
      unfold nanosPerSecond at *
      omega
    have hsec : t.secOfDay % 60 = 59 := by
      have := t.leap h
      unfold DateTime.secOfDay
      omega
    exact Or.inr ⟨h, hone, hsec, by rw [DateTime.second, hsec, hone]⟩

theorem second_le : t.second ≤ 60 := by
  rcases second_cases t with ⟨-, h⟩ | ⟨-, -, -, h⟩ <;> omega

/-- The years of the calendar. -/
theorem year_bounds : -262143 ≤ t.year ∧ t.year ≤ 262142 := by
  have hlo := t.secs_ge
  have hhi := t.secs_le
  unfold minSecs at hlo
  unfold maxSecs at hhi
  have hv := date_valid t
  have hdays : daysFromCivil t.date = t.secs / 86400 := daysFromCivil_civilFromDays _
  have first : (⟨-262143, 1, 1⟩ : Date).Valid := by decide
  have last : (⟨262142, 12, 31⟩ : Date).Valid := by decide
  constructor
  · by_contra h
    have := daysFromCivil_lt hv first (Or.inl (by simpa [DateTime.year] using h))
    rw [hdays, show daysFromCivil ⟨-262143, 1, 1⟩ = -96465292 by decide] at this
    omega
  · by_contra h
    have := daysFromCivil_lt last hv (Or.inl (by simpa [DateTime.year] using h))
    rw [hdays, show daysFromCivil ⟨262142, 12, 31⟩ = 95026236 by decide] at this
    omega

end Fields

/-! ### Reading back what was written -/

theorem trimStart_fixed (w n : ℕ) (s : List Char) :
    trimStart (fixed (w + 1) n ++ s) = fixed (w + 1) n ++ s :=
  trimStart_cons (isWhitespace_of_isDigit (isDigit_digit _))

theorem twoDigits_fixed {lo hi n : ℕ} {s : List Char} (hlo : lo ≤ n) (hhi : n ≤ hi)
    (hmax : hi ≤ 99) : twoDigits lo hi (fixed 2 n ++ s) = some (n, s) := by
  rw [twoDigits, trimStart_fixed 1,
    number_fixed (by norm_num) le_rfl (Or.inl rfl) (by omega) (by unfold i64Max; omega)]
  simp [hlo, hhi]

theorem readYear_formatYear {y : ℤ} {s : List Char} (hlo : -1000000 < y) (hhi : y < 1000000)
    (hs : Stops s) : readYear (formatYear y ++ s) = some (y, s) := by
  unfold formatYear
  by_cases h : 0 ≤ y ∧ y < 10000
  · rw [if_pos h, readYear, trimStart_fixed 3]
    have hnum : number i64Max 4 (fixed 4 y.toNat ++ s) = some (y.toNat, s) :=
      number_fixed (by norm_num) le_rfl (Or.inl rfl) (by omega) (by unfold i64Max; omega)
    have hd := isDigit_digit (y.toNat / 10 ^ 3)
    simp only [fixed, List.cons_append] at hnum ⊢
    split
    · next heq => rw [(List.cons.inj heq).1] at hd; simp at hd
    · next heq => rw [(List.cons.inj heq).1] at hd; simp at hd
    · rw [hnum]
      simp only [Option.map_some, Option.some.injEq, Prod.mk.injEq, and_true]
      omega
  · rw [if_neg h]
    set w := if y.natAbs < 10000 then 4 else if y.natAbs < 100000 then 5 else 6 with hw
    have hpow : y.natAbs < 10 ^ w ∧ 0 < w := by
      rw [hw]; split_ifs <;> omega
    have hnum : number i64Max (fixed w y.natAbs ++ s).length (fixed w y.natAbs ++ s)
        = some (y.natAbs, s) :=
      number_fixed hpow.2 (by simp) (Or.inr hs) hpow.1 (by unfold i64Max; omega)
    have hmax : y.natAbs ≤ i32Max := by unfold i32Max; omega
    by_cases hneg : y < 0
    · rw [if_pos hneg, readYear, List.cons_append, trimStart_cons (by decide)]
      simp only [hnum, Option.bind_some, if_pos hmax, Option.some.injEq, Prod.mk.injEq, and_true]
      omega
    · rw [if_neg hneg, readYear, List.cons_append, trimStart_cons (by decide)]
      simp only [hnum, Option.bind_some, if_pos hmax, Option.some.injEq, Prod.mk.injEq, and_true]
      omega

theorem parseItems_cons (item : Item) (layout : List Item) (p : Parsed) (s : List Char) :
    parseItems (item :: layout) p s =
      (item.parse p s).bind fun (p, s) => parseItems layout p s := rfl

@[simp] theorem Item.format_literal (t : DateTime) (c : Char) : (Item.literal c).format t = [c] := rfl

@[simp] theorem Item.format_space (t : DateTime) : Item.space.format t = [' '] := rfl

/-- The fields of the text of an instant. -/
def Parsed.ofWall (t : DateTime) : Parsed :=
  { year := some t.year, month := some t.date.month, day := some t.date.day, hour := some t.hour,
    minute := some t.minute, second := some t.second }

/-- A separator that reads itself. -/
def Separates (sep : Item) : Prop :=
  ∀ (t : DateTime) (p : Parsed) (n : ℕ) (s : List Char),
    sep.parse p (sep.format t ++ (fixed 2 n ++ s)) = some (p, fixed 2 n ++ s)

theorem separates_literal (c : Char) : Separates (.literal c) := by
  intro t p n s
  simp [Item.parse]

theorem separates_space : Separates .space := by
  intro t p n s
  have h := trimStart_fixed 1 n s
  simp only [trimStart] at h
  simp [Item.parse, trimStart, show isWhitespace ' ' = true by decide, h]

theorem literal_parse_cons (c : Char) (p : Parsed) (s : List Char) :
    (Item.literal c).parse p (c :: s) = some (p, s) := by
  simp [Item.parse]

theorem literal_parse_cons_ne {c d : Char} (h : c ≠ d) (p : Parsed) (s : List Char) :
    (Item.literal c).parse p (d :: s) = none := by
  simp [Item.parse, h]

/-- Reading the date of an instant yields its fields and leaves the rest. -/
theorem parseItems_date (t : DateTime) (layout : List Item) (s : List Char) :
    parseItems (.year :: .literal '-' :: .month :: .literal '-' :: .day :: layout) {}
        (formatYear t.year ++ '-' :: (fixed 2 t.date.month ++ '-' :: (fixed 2 t.date.day ++ s))) =
      parseItems layout
        { year := some t.year, month := some t.date.month, day := some t.date.day } s := by
  have hy := year_bounds t
  have hm := month_bounds t
  have hd := day_bounds t
  have hstop : ∀ s, Stops ('-' :: s) := fun s c hc => by
    simp only [List.head?_cons, Option.mem_def, Option.some.injEq] at hc
    rw [← hc]; decide
  have hyear : ∀ s, readYear (formatYear t.year ++ '-' :: s) = some (t.year, '-' :: s) :=
    fun s => readYear_formatYear (by omega) (by omega) (hstop s)
  simp only [parseItems_cons]
  rw [Item.parse, hyear]
  simp only [Option.map_some, Option.bind_some, literal_parse_cons]
  rw [Item.parse, twoDigits_fixed hm.1 hm.2 (by norm_num)]
  simp only [Option.map_some, Option.bind_some, literal_parse_cons]
  rw [Item.parse, twoDigits_fixed hd.1 hd.2 (by norm_num)]
  rfl

/-- Reading the text of an instant yields its fields and leaves the rest. -/
theorem parseItems_wall {sep : Item} (hsep : Separates sep) (t : DateTime) (layout : List Item)
    (s : List Char) :
    parseItems (wall sep ++ layout) {} (format (wall sep) t ++ s) =
      parseItems layout (Parsed.ofWall t) s := by
  have hh := hour_le t
  have hmi := minute_le t
  have hse := second_le t
  have hsep' := fun p s => hsep t p t.hour s
  rw [format_wall]
  simp only [wall, List.cons_append, List.nil_append, List.append_assoc]
  rw [parseItems_date]
  simp only [parseItems_cons, hsep', Option.bind_some]
  rw [Item.parse, twoDigits_fixed (Nat.zero_le _) hh (by norm_num)]
  simp only [Option.map_some, Option.bind_some, literal_parse_cons]
  rw [Item.parse, twoDigits_fixed (Nat.zero_le _) hmi (by norm_num)]
  simp only [Option.map_some, Option.bind_some, literal_parse_cons]
  rw [Item.parse, twoDigits_fixed (Nat.zero_le _) hse (by norm_num)]
  rfl

/-- A layout with another separator does not read the text. -/
theorem parseItems_wall_ne {c d : Char} (h : c ≠ d) (t : DateTime) (layout : List Item)
    (s : List Char) :
    parseItems (wall (.literal c) ++ layout) {} (format (wall (.literal d)) t ++ s) = none := by
  rw [format_wall]
  simp only [wall, Item.format_literal, List.cons_append, List.nil_append, List.append_assoc]
  rw [parseItems_date, parseItems_cons, literal_parse_cons_ne h]
  rfl

/-- The fields of the text of an instant are those of the instant without its fraction. -/
theorem toNaive_ofWall (t : DateTime) : (Parsed.ofWall t).toNaive = some t.trunc := by
  have hlo := t.secs_ge
  have hhi := t.secs_le
  have hdays : daysFromCivil t.date = t.secs / 86400 := daysFromCivil_civilFromDays _
  have hdate : (Parsed.ofWall t).toDate = some t.date := by
    have hin : minSecs ≤ daysFromCivil t.date * 86400 ∧
        daysFromCivil t.date * 86400 ≤ maxSecs := by
      rw [hdays]
      unfold minSecs maxSecs at *
      omega
    exact if_pos ⟨date_valid t, hin⟩
  have hsod : (t.secOfDay : ℤ) = t.secs % 86400 := by unfold DateTime.secOfDay; omega
  have htime : (Parsed.ofWall t).toTime =
      some (t.secOfDay, t.nanos / nanosPerSecond * nanosPerSecond) := by
    change (if t.second = 60 then
        some (t.hour * 3600 + t.minute * 60 + 59, nanosPerSecond + 0)
      else some (t.hour * 3600 + t.minute * 60 + t.second, 0)) = _
    unfold DateTime.hour DateTime.minute
    rcases second_cases t with ⟨hn, hs⟩ | ⟨hn, hone, hs59, hs⟩
    · rw [if_neg (by omega), hs, Nat.div_eq_of_lt hn]
      simp only [Option.some.injEq, Prod.mk.injEq]
      omega
    · rw [if_pos hs, hone]
      simp only [Option.some.injEq, Prod.mk.injEq]
      omega
  rw [Parsed.toNaive, hdate, htime]
  simp only [Option.bind_eq_bind, Option.bind_some, hdays, hsod]
  rw [show t.secs / 86400 * 86400 + t.secs % 86400 = t.secs by omega]
  exact DateTime.ofParts?_self t.trunc

/-! ### The characters of a text -/

/-- A year is a numeral, or a sign and a numeral. -/
theorem formatYear_cases (y : ℤ) :
    (∃ n, formatYear y = fixed 4 n) ∨
      ∃ sign w n, (sign = '-' ∨ sign = '+') ∧ formatYear y = sign :: fixed w n := by
  unfold formatYear
  by_cases h : 0 ≤ y ∧ y < 10000
  · exact Or.inl ⟨_, if_pos h⟩
  · rw [if_neg h]
    refine Or.inr ⟨_, _, _, ?_, rfl⟩
    split_ifs
    · exact Or.inl rfl
    · exact Or.inr rfl

theorem mem_formatYear {y : ℤ} {c : Char} (h : c ∈ formatYear y) :
    c.isDigit = true ∨ c = '-' ∨ c = '+' := by
  rcases formatYear_cases y with ⟨n, hy⟩ | ⟨sign, w, n, hsign, hy⟩
  · exact Or.inl (isDigit_of_mem_fixed (hy ▸ h))
  · rcases List.mem_cons.1 (hy ▸ h) with rfl | h
    · exact Or.inr hsign
    · exact Or.inl (isDigit_of_mem_fixed h)

theorem mem_format_wall {t : DateTime} {c d : Char} (h : c ∈ format (wall (.literal d)) t) :
    c.isDigit = true ∨ c = '-' ∨ c = '+' ∨ c = ':' ∨ c = d := by
  rw [format_wall] at h
  simp only [List.mem_append, List.mem_cons, Item.format_literal, List.not_mem_nil, or_false] at h
  rcases h with h | h | h | h | h | h | h | h | h | h | h
  · rcases mem_formatYear h with h | h | h <;> simp [h]
  all_goals first
    | exact Or.inl (isDigit_of_mem_fixed h)
    | simp [h]

theorem getLast?_append_fixed (l : List Char) (w n : ℕ) :
    (l ++ fixed (w + 1) n).getLast? = some (digit n) := by
  induction w generalizing l with
  | zero => simp [fixed]
  | succ w ih =>
    rw [fixed, List.append_cons]
    exact ih _

/-- The text of an instant ends with a digit. -/
theorem getLast?_format_wall (sep : Item) (t : DateTime) :
    (format (wall sep) t).getLast? = some (digit t.second) := by
  have h : format (wall sep) t = (formatYear t.year ++ '-' :: (fixed 2 t.date.month ++ '-' ::
      (fixed 2 t.date.day ++ (sep.format t ++ (fixed 2 t.hour ++ ':' ::
        (fixed 2 t.minute ++ [':'])))))) ++ fixed 2 t.second := by
    rw [format_wall]
    simp
  rw [h, getLast?_append_fixed]

theorem head?_formatYear (y : ℤ) :
    ∃ c s, formatYear y = c :: s ∧ isWhitespace c = false := by
  rcases formatYear_cases y with ⟨n, hy⟩ | ⟨sign, w, n, rfl | rfl, hy⟩
  · exact ⟨_, _, hy, isWhitespace_of_isDigit (isDigit_digit _)⟩
  · exact ⟨_, _, hy, by decide⟩
  · exact ⟨_, _, hy, by decide⟩

/-- The text of an instant starts with a digit or a sign. -/
theorem head?_format_wall (sep : Item) (t : DateTime) :
    ∃ c s, format (wall sep) t = c :: s ∧ isWhitespace c = false := by
  obtain ⟨c, s, hs, hc⟩ := head?_formatYear t.year
  exact ⟨c, _, by rw [format_wall, hs]; rfl, hc⟩

/-! ### Order -/

/-- The instants whose year is written with four digits. -/
def FourDigitYear (t : DateTime) : Prop := 0 ≤ t.year ∧ t.year ≤ 9999

instance (t : DateTime) : Decidable (FourDigitYear t) :=
  inferInstanceAs (Decidable (0 ≤ t.year ∧ t.year ≤ 9999))

/-- Comparing the columns of two wall-clock texts one by one. -/
theorem format_wall_lt_columns {a b : DateTime} (ha : FourDigitYear a) (hb : FourDigitYear b)
    {sep : Item} (hsep : sep.format a = sep.format b) :
    format (wall sep) a < format (wall sep) b ↔
      a.date.lt b.date ∨ a.date = b.date ∧ (a.hour < b.hour ∨ a.hour = b.hour ∧
        (a.minute < b.minute ∨ a.minute = b.minute ∧ a.second < b.second)) := by
  obtain ⟨hya0, hya1⟩ := ha
  obtain ⟨hyb0, hyb1⟩ := hb
  have hm := month_bounds a
  have hm' := month_bounds b
  have hd := day_bounds a
  have hd' := day_bounds b
  have hh := hour_le a
  have hh' := hour_le b
  have hmi := minute_le a
  have hmi' := minute_le b
  have hs := second_le a
  have hs' := second_le b
  have hya : formatYear a.year = fixed 4 a.year.toNat := if_pos ⟨hya0, by omega⟩
  have hyb : formatYear b.year = fixed 4 b.year.toNat := if_pos ⟨hyb0, by omega⟩
  have hlt : ∀ {w x y : ℕ}, x < 10 ^ w → y < 10 ^ w → (fixed w x < fixed w y ↔ x < y) := by
    intro w x y hx hy
    rw [fixed_lt_fixed_iff, Nat.mod_eq_of_lt hx, Nat.mod_eq_of_lt hy]
  have heq : ∀ {w x y : ℕ}, x < 10 ^ w → y < 10 ^ w → (fixed w x = fixed w y ↔ x = y) := by
    intro w x y hx hy
    exact ⟨fixed_inj hx hy, fun h => by rw [h]⟩
  have hfix : ∀ (w x y : ℕ), (fixed w x).length = (fixed w y).length := by simp
  rw [format_wall, format_wall, hya, hyb, hsep]
  rw [append_lt_append_iff (hfix _ _ _), List.cons_lt_cons_iff, append_lt_append_iff (hfix _ _ _),
    List.cons_lt_cons_iff, append_lt_append_iff (hfix _ _ _), append_lt_append_iff rfl,
    append_lt_append_iff (hfix _ _ _), List.cons_lt_cons_iff, append_lt_append_iff (hfix _ _ _),
    List.cons_lt_cons_iff, hlt (by omega) (by omega), hlt (by omega) (by omega),
    hlt (by omega) (by omega), hlt (by omega) (by omega), hlt (by omega) (by omega),
    hlt (by omega) (by omega), heq (by omega) (by omega), heq (by omega) (by omega),
    heq (by omega) (by omega), heq (by omega) (by omega), heq (by omega) (by omega)]
  unfold DateTime.year at *
  generalize a.date = c at *
  generalize b.date = d at *
  obtain ⟨cy, cm, cd⟩ := c
  obtain ⟨dy, dm, dd⟩ := d
  simp only [lt_self_iff_false, false_or, true_and, Date.lt, Date.mk.injEq] at *
  omega

/-- In the years `0..9999` texts are ordered as the instants without their fractions. -/
theorem format_wall_lt_iff {a b : DateTime} (ha : FourDigitYear a) (hb : FourDigitYear b)
    {sep : Item} (hsep : sep.format a = sep.format b) :
    format (wall sep) a < format (wall sep) b ↔ a.trunc < b.trunc := by
  have hdate : a.date.lt b.date ↔ a.secs / 86400 < b.secs / 86400 := civilFromDays_lt_iff _ _
  have hdate' : b.date.lt a.date ↔ b.secs / 86400 < a.secs / 86400 := civilFromDays_lt_iff _ _
  have heq : a.date = b.date ↔ a.secs / 86400 = b.secs / 86400 := by
    refine ⟨fun h => ?_, fun h => by simp only [DateTime.date, h]⟩
    have hirr : ¬ b.date.lt b.date := by simp [Date.lt]
    rw [h] at hdate hdate'
    have := hdate.not.1 hirr
    have := hdate'.not.1 hirr
    omega
  rw [format_wall_lt_columns ha hb hsep, hdate, heq, DateTime.lt_def]
  have hsa : (a.secOfDay : ℤ) = a.secs % 86400 := by unfold DateTime.secOfDay; omega
  have hsb : (b.secOfDay : ℤ) = b.secs % 86400 := by unfold DateTime.secOfDay; omega
  have hla := secOfDay_lt a
  have hlb := secOfDay_lt b
  simp only [DateTime.trunc]
  unfold DateTime.hour DateTime.minute
  -- within one minute the written second is the second, or sixty in a leap second
  rcases second_cases a with ⟨hna, hca⟩ | ⟨hna, hone, h59, hca⟩ <;>
    rcases second_cases b with ⟨hnb, hcb⟩ | ⟨hnb, hone', h59', hcb⟩
  · rw [hca, hcb, Nat.div_eq_of_lt hna, Nat.div_eq_of_lt hnb]
    omega
  · rw [hca, hcb, Nat.div_eq_of_lt hna, hone']
    unfold nanosPerSecond
    omega
  · rw [hca, hcb, Nat.div_eq_of_lt hnb, hone]
    unfold nanosPerSecond
    omega
  · rw [hca, hcb, hone, hone']
    omega

end Chrono
