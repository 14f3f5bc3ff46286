import Mathlib.Tactic

/-!
# The proleptic Gregorian calendar

Days are counted from 1970-01-01.  Internally a year starts on 1 March, so that the leap day is
the last day of the year; four hundred years are an era of 146097 days.

* `daysFromCivil` and `civilFromDays` convert between dates and day numbers;
* `daysFromCivil_civilFromDays` is the round trip, and `daysFromCivil_lt` says that later dates
  have larger day numbers, so that `civilFromDays` is strictly increasing (`civilFromDays_lt_iff`).
-/

namespace Calendar

/-- A civil date: year, month `1..12` and day of the month. -/
structure Date where
  year : ℤ
  month : ℕ
  day : ℕ
  deriving DecidableEq, Repr

/-- The year in which the March-based year of a date starts. -/
def Date.marchYear (c : Date) : ℤ := if c.month ≤ 2 then c.year - 1 else c.year

/-- The number of whole months since March. -/
def Date.marchMonth (c : Date) : ℕ := if c.month ≤ 2 then c.month + 9 else c.month - 3

/-- The first day of the March-based year `y`, counted from 1 March of year `0`. -/
def yearStart (y : ℤ) : ℤ := 365 * y + y / 4 - y / 100 + y / 400

/-- The first day of the `m`-th month after March, counted from 1 March. -/
def monthStart (m : ℕ) : ℕ := (153 * m + 2) / 5

/-- The day number of a date. -/
def daysFromCivil (c : Date) : ℤ :=
  yearStart c.marchYear + monthStart c.marchMonth + c.day - 1 - 719468

/-- Whether `y` is a leap year. -/
def isLeap (y : ℤ) : Bool := y % 4 = 0 ∧ (y % 100 ≠ 0 ∨ y % 400 = 0)

/-- The number of days of a month. -/
def daysInMonth (y : ℤ) (m : ℕ) : ℕ :=
  if m = 2 then (if isLeap y then 29 else 28)
  else if m = 4 ∨ m = 6 ∨ m = 9 ∨ m = 11 then 30 else 31

/-- The dates of the calendar. -/
structure Date.Valid (c : Date) : Prop where
  month_pos : 1 ≤ c.month
  month_le : c.month ≤ 12
  day_pos : 1 ≤ c.day
  day_le : c.day ≤ daysInMonth c.year c.month

instance (c : Date) : Decidable c.Valid :=
  decidable_of_iff (1 ≤ c.month ∧ c.month ≤ 12 ∧ 1 ≤ c.day ∧ c.day ≤ daysInMonth c.year c.month)
    ⟨fun ⟨a, b, d, e⟩ => ⟨a, b, d, e⟩, fun ⟨a, b, d, e⟩ => ⟨a, b, d, e⟩⟩

/-- The March-based year of an era day and the day within that year. -/
def splitEra (doe : ℤ) : ℤ × ℤ :=
  let century := min (doe / 36524) 3
  let inCentury := doe - 36524 * century
  let quad := inCentury / 1461
  let inQuad := inCentury % 1461
  let yearInQuad := min (inQuad / 365) 3
  (100 * century + 4 * quad + yearInQuad, inQuad - 365 * yearInQuad)

/-- The date of the `doy`-th day of the March-based year `y`. -/
def ofMarch (y : ℤ) (doy : ℕ) : Date :=
  let mp := (5 * doy + 2) / 153
  let m := if mp < 10 then mp + 3 else mp - 9
  { year := if m ≤ 2 then y + 1 else y
    month := m
    day := doy - monthStart mp + 1 }

/-- The date of a day number. -/
def civilFromDays (z : ℤ) : Date :=
  let era := (z + 719468) / 146097
  let (yoe, doy) := splitEra ((z + 719468) % 146097)
  ofMarch (400 * era + yoe) doy.toNat

/-! ### The round trip -/

/-- The start of the year `100 c + 4 q + a` of an era. -/
theorem yearStart_of_parts {c q a : ℤ} (hc : 0 ≤ c ∧ c ≤ 3) (hq : 0 ≤ q ∧ q ≤ 24)
    (ha : 0 ≤ a ∧ a ≤ 3) : yearStart (100 * c + 4 * q + a) = 36524 * c + 1461 * q + 365 * a := by
  have h4 : (100 * c + 4 * q + a) / 4 = 25 * c + q := by omega
  have h100 : (100 * c + 4 * q + a) / 100 = c := by omega
  have h400 : (100 * c + 4 * q + a) / 400 = 0 := by omega
  rw [yearStart, h4, h100, h400]
  ring

/-- A March-based year has 366 days exactly when the next civil year is a leap year. -/
theorem yearStart_succ (y : ℤ) :
    yearStart (y + 1) = yearStart y + (if isLeap (y + 1) then 366 else 365) := by
  unfold yearStart isLeap
  split_ifs with h <;> simp only [decide_eq_true_eq] at h <;> omega

/-- An era day lies in its year, and the year lies in the era. -/
theorem splitEra_spec {doe : ℤ} (h0 : 0 ≤ doe) (h1 : doe < 146097) :
    0 ≤ (splitEra doe).1 ∧ (splitEra doe).1 < 400 ∧ 0 ≤ (splitEra doe).2 ∧
      yearStart (splitEra doe).1 + (splitEra doe).2 = doe ∧
      doe < yearStart ((splitEra doe).1 + 1) := by
  simp only [splitEra]
  have hc : 0 ≤ min (doe / 36524) 3 ∧ min (doe / 36524) 3 ≤ 3 := by omega
  have hr : 0 ≤ doe - 36524 * min (doe / 36524) 3 ∧ doe - 36524 * min (doe / 36524) 3 ≤ 36524 ∧
      (min (doe / 36524) 3 < 3 → doe - 36524 * min (doe / 36524) 3 < 36524) := by omega
  generalize min (doe / 36524) 3 = c at *
  obtain ⟨r, rfl⟩ : ∃ r, doe = 36524 * c + r := ⟨doe - 36524 * c, by ring⟩
  simp only [add_sub_cancel_left] at *
  have hq : 0 ≤ r / 1461 ∧ r / 1461 ≤ 24 := by omega
  have hs := Int.emod_add_mul_ediv r 1461
  have hs0 := Int.emod_nonneg r (show (1461 : ℤ) ≠ 0 by norm_num)
  have hs1 := Int.emod_lt_of_pos r (show (0 : ℤ) < 1461 by norm_num)
  generalize r / 1461 = q at *
  generalize r % 1461 = s at *
  have ha : 0 ≤ min (s / 365) 3 ∧ min (s / 365) 3 ≤ 3 := by omega
  have hd : 0 ≤ s - 365 * min (s / 365) 3 ∧ s - 365 * min (s / 365) 3 ≤ 365 ∧
      (min (s / 365) 3 < 3 → s - 365 * min (s / 365) 3 < 365) := by omega
  generalize min (s / 365) 3 = a at *
  refine ⟨by omega, by omega, by omega, by rw [yearStart_of_parts hc hq ha]; omega, ?_⟩
  rw [yearStart_succ, yearStart_of_parts hc hq ha]
  by_cases hleap : isLeap (100 * c + 4 * q + a + 1)
  · rw [if_pos hleap]; omega
  · -- a common year: not the last of its quad, or the last of a century that is no multiple of 4
    rw [if_neg hleap]
    simp only [isLeap, decide_eq_true_eq] at hleap
    omega

theorem yearStart_add_era (e y : ℤ) : yearStart (400 * e + y) = 146097 * e + yearStart y := by
  unfold yearStart
  omega

theorem ofMarch_parts (y : ℤ) {doy : ℕ} (h : doy ≤ 365) :
    (ofMarch y doy).marchYear = y ∧ (ofMarch y doy).marchMonth = (5 * doy + 2) / 153 ∧
      1 ≤ (ofMarch y doy).month ∧ (ofMarch y doy).month ≤ 12 := by
  have hmp : (5 * doy + 2) / 153 ≤ 11 := by omega
  simp only [ofMarch, Date.marchYear, Date.marchMonth]
  split_ifs <;> omega

/-- The parts of `civilFromDays`: the March-based year and the day within it. -/
theorem civilFromDays_parts (z : ℤ) :
    ∃ y : ℤ, ∃ doy : ℕ, civilFromDays z = ofMarch y doy ∧ doy ≤ 365 ∧
      yearStart y + doy = z + 719468 ∧ z + 719468 < yearStart (y + 1) := by
  obtain ⟨hy0, hy1, hd0, hday, hnext⟩ := splitEra_spec (Int.emod_nonneg (z + 719468) (by norm_num))
    (Int.emod_lt_of_pos (z + 719468) (by norm_num))
  have hera := Int.emod_add_mul_ediv (z + 719468) 146097
  have hcivil : civilFromDays z = ofMarch (400 * ((z + 719468) / 146097) +
      (splitEra ((z + 719468) % 146097)).1) (splitEra ((z + 719468) % 146097)).2.toNat := rfl
  generalize (splitEra ((z + 719468) % 146097)).1 = yoe at *
  generalize (splitEra ((z + 719468) % 146097)).2 = doy at *
  have hlast : doy.toNat ≤ 365 := by
    rw [yearStart_succ] at hnext
    split_ifs at hnext <;> omega
  refine ⟨_, _, hcivil, hlast, ?_, ?_⟩
  · rw [yearStart_add_era]; omega
  · rw [add_assoc, yearStart_add_era]; omega

/-- Every day number is the number of its date. -/
theorem daysFromCivil_civilFromDays (z : ℤ) : daysFromCivil (civilFromDays z) = z := by
  obtain ⟨y, doy, hz, hlast, hday, hnext⟩ := civilFromDays_parts z
  obtain ⟨hy, hm, -, -⟩ := ofMarch_parts y hlast
  have hstart : monthStart ((5 * doy + 2) / 153) ≤ doy := by unfold monthStart; omega
  have hd : (ofMarch y doy).day = doy - monthStart ((5 * doy + 2) / 153) + 1 := rfl
  rw [hz, daysFromCivil, hy, hm, hd]
  omega

theorem civilFromDays_valid (z : ℤ) : (civilFromDays z).Valid := by
  obtain ⟨y, doy, hz, hlast, hday, hnext⟩ := civilFromDays_parts z
  obtain ⟨hy, hm, h1, h12⟩ := ofMarch_parts y hlast
  have hd : (ofMarch y doy).day = doy - monthStart ((5 * doy + 2) / 153) + 1 := rfl
  rw [hz]
  refine ⟨h1, h12, by omega, ?_⟩
  rw [yearStart_succ] at hnext
  rw [hd]
  generalize ofMarch y doy = c at *
  unfold Date.marchYear at hy
  unfold Date.marchMonth at hm
  unfold daysInMonth monthStart
  by_cases hfeb : c.month = 2
  · have hyear : y + 1 = c.year := by rw [if_pos (by omega)] at hy; omega
    rw [hyear] at hnext
    rw [if_pos hfeb]
    split_ifs at hnext hm ⊢ <;> omega
  · rw [if_neg hfeb]
    split_ifs at hm ⊢ <;> omega

/-! ### Order -/

/-- The order of dates: by year, then month, then day. -/
def Date.lt (a b : Date) : Prop :=
  a.year < b.year ∨ a.year = b.year ∧ (a.month < b.month ∨ a.month = b.month ∧ a.day < b.day)

theorem yearStart_mono {a b : ℤ} (h : a < b) : yearStart (a + 1) ≤ yearStart b := by
  unfold yearStart
  omega

/-- A valid date lies before the next month of its March-based year. -/
theorem Date.Valid.day_lt {c : Date} (h : c.Valid) :
    (monthStart c.marchMonth : ℤ) + c.day - 1 <
      min (monthStart (c.marchMonth + 1) : ℤ) (yearStart (c.marchYear + 1) - yearStart c.marchYear) := by
  have h1 := h.month_pos
  have h2 := h.month_le
  have h3 := h.day_le
  rw [yearStart_succ]
  unfold daysInMonth at h3
  unfold monthStart Date.marchMonth Date.marchYear
  by_cases hfeb : c.month = 2
  · simp only [hfeb, le_refl, if_true] at h3 ⊢
    rw [show c.year - 1 + 1 = c.year by ring]
    split_ifs at h3 ⊢ <;> omega
  · rw [if_neg hfeb] at h3
    have hm : c.month ≤ 12 := h2
    generalize c.month = m at *
    interval_cases m <;> simp at h3 hfeb ⊢ <;> split_ifs <;> omega

/-- Later dates have larger day numbers. -/
theorem daysFromCivil_lt {a b : Date} (ha : a.Valid) (hb : b.Valid) (h : a.lt b) :
    daysFromCivil a < daysFromCivil b := by
  have hday := ha.day_lt
  have hbpos := hb.day_pos
  have h1 := ha.month_pos
  have h2 := ha.month_le
  have h3 := hb.month_pos
  have h4 := hb.month_le
  -- the March-based pair (year, month) does not decrease, and the day decides a tie
  have hmarch : a.marchYear < b.marchYear ∨ a.marchYear = b.marchYear ∧
      (a.marchMonth < b.marchMonth ∨ a.marchMonth = b.marchMonth ∧ a.day < b.day) := by
    unfold Date.lt at h
    unfold Date.marchYear Date.marchMonth
    split_ifs <;> omega
  unfold daysFromCivil
  rcases hmarch with hy | ⟨hy, hm | ⟨hm, hd⟩⟩
  · have := yearStart_mono hy
    omega
  · rw [hy]
    have hmono : monthStart (a.marchMonth + 1) ≤ monthStart b.marchMonth := by
      unfold monthStart; omega
    omega
  · rw [hy, hm]
    omega

/-- The calendar is strictly increasing in the day number. -/
theorem civilFromDays_lt_iff (x y : ℤ) : (civilFromDays x).lt (civilFromDays y) ↔ x < y := by
  have hlt : ∀ u v : ℤ, (civilFromDays u).lt (civilFromDays v) → u < v := by
    intro u v h
    have := daysFromCivil_lt (civilFromDays_valid u) (civilFromDays_valid v) h
    rwa [daysFromCivil_civilFromDays, daysFromCivil_civilFromDays] at this
  refine ⟨hlt x y, fun h => ?_⟩
  by_contra hn
  have hcases : civilFromDays x = civilFromDays y ∨ (civilFromDays y).lt (civilFromDays x) := by
    generalize civilFromDays x = a at *
    generalize civilFromDays y = b at *
    obtain ⟨ay, am, ad⟩ := a
    obtain ⟨bx, bm, bd⟩ := b
    simp only [Date.lt, Date.mk.injEq] at *
    omega
  rcases hcases with heq | hgt
  · have := congrArg daysFromCivil heq
    rw [daysFromCivil_civilFromDays, daysFromCivil_civilFromDays] at this
    omega
  · have := hlt y x hgt
    omega

/-- The date of a valid date's day number is the date itself. -/
theorem civilFromDays_daysFromCivil {c : Date} (h : c.Valid) :
    civilFromDays (daysFromCivil c) = c := by
  by_contra hne
  have hv := civilFromDays_valid (daysFromCivil c)
  have hdays := daysFromCivil_civilFromDays (daysFromCivil c)
  have hcases : (civilFromDays (daysFromCivil c)).lt c ∨ c.lt (civilFromDays (daysFromCivil c)) := by
    generalize civilFromDays (daysFromCivil c) = a at *
    obtain ⟨ay, am, ad⟩ := a
    obtain ⟨bx, bm, bd⟩ := c
    simp only [Date.lt, Date.mk.injEq] at *
    omega
  rcases hcases with hlt | hlt
  · have := daysFromCivil_lt hv h hlt
    omega
  · have := daysFromCivil_lt h hv hlt
    omega

/-- The years before a year are the days before its first day. -/
theorem year_lt_iff (z y : ℤ) : (civilFromDays z).year < y ↔ z < daysFromCivil ⟨y, 1, 1⟩ := by
  have hvalid : (⟨y, 1, 1⟩ : Date).Valid := by
    refine ⟨le_rfl, by simp, le_rfl, ?_⟩
    simp [daysInMonth]
  have hz := civilFromDays_valid z
  have hmonth := hz.month_pos
  have hday := hz.day_pos
  have hlt := civilFromDays_lt_iff z (daysFromCivil ⟨y, 1, 1⟩)
  rw [civilFromDays_daysFromCivil hvalid] at hlt
  rw [← hlt, Date.lt]
  simp only
  omega

end Calendar
