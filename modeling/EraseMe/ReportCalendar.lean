import EraseMe.Reports

/-!
# What the calendar lists

The loop over the requests adds an entry for each open request whose marker is within the horizon to
the bucket of its week.  `calendar_complete` says what is in the calendar afterwards: the entries of
each bucket, their days, and the totals.  The names of weeks are ordered as the weeks in the years
1 to 9999 only, and leap seconds are counted like the seconds after them.
-/

namespace EraseMe.Reporting

open Calendar Chrono Decimal Json Sqlite Storage

variable {τ : Type}

/-! ### Weeks -/

/-- The number of a week: weeks start on Mondays, and the Thursday of week 0 is the epoch. -/
def weekOf (t : DateTime) : ℤ := (t.secs / 86400 + 3) / 7

/-- The year of a week is the year its Thursday is in. -/
theorem isoWeek_eq (t : DateTime) :
    isoWeek t = ((civilFromDays (7 * weekOf t)).year,
      (7 * weekOf t - daysFromCivil ⟨(civilFromDays (7 * weekOf t)).year, 1, 1⟩) / 7 + 1) := by
  have hthursday : t.secs / 86400 - (t.secs / 86400 + 3) % 7 + 3 = 7 * weekOf t := by
    unfold weekOf
    omega
  rw [isoWeek]
  simp only [hthursday]

/-- A Thursday lies in its year. -/
theorem year_bounds_of_days (z : ℤ) :
    daysFromCivil ⟨(civilFromDays z).year, 1, 1⟩ ≤ z ∧
      z < daysFromCivil ⟨(civilFromDays z).year + 1, 1, 1⟩ := by
  have hlow := year_lt_iff z (civilFromDays z).year
  have hhigh := year_lt_iff z ((civilFromDays z).year + 1)
  omega

theorem daysInYear (y : ℤ) :
    daysFromCivil ⟨y + 1, 1, 1⟩ - daysFromCivil ⟨y, 1, 1⟩ = if isLeap y then 366 else 365 := by
  unfold daysFromCivil Date.marchYear Date.marchMonth yearStart monthStart isLeap
  simp
  split_ifs <;> omega

/-- The week of a year is counted from 1 to 53. -/
theorem isoWeek_bounds (t : DateTime) : 1 ≤ (isoWeek t).2 ∧ (isoWeek t).2 ≤ 53 := by
  rw [isoWeek_eq]
  have hbounds := year_bounds_of_days (7 * weekOf t)
  have hyear := daysInYear (civilFromDays (7 * weekOf t)).year
  generalize (civilFromDays (7 * weekOf t)).year = y at *
  split_ifs at hyear <;> simp only <;> omega

/-- Years and weeks are ordered as the weeks. -/
theorem isoWeek_lt_iff (a b : DateTime) :
    (isoWeek a).1 < (isoWeek b).1 ∨ (isoWeek a).1 = (isoWeek b).1 ∧ (isoWeek a).2 < (isoWeek b).2 ↔
      weekOf a < weekOf b := by
  rw [isoWeek_eq, isoWeek_eq]
  simp only
  have ha := year_bounds_of_days (7 * weekOf a)
  have hb := year_bounds_of_days (7 * weekOf b)
  have hlt := year_lt_iff (7 * weekOf a) (civilFromDays (7 * weekOf b)).year
  have hgt := year_lt_iff (7 * weekOf b) (civilFromDays (7 * weekOf a)).year
  generalize (civilFromDays (7 * weekOf a)).year = y at *
  generalize (civilFromDays (7 * weekOf b)).year = y' at *
  rcases lt_trichotomy y y' with h | rfl | h
  · have hdays := hlt.1 h
    exact iff_of_true (Or.inl h) (by omega)
  · omega
  · have hdays := hgt.1 h
    exact iff_of_false (by omega) (by omega)

/-- The years of the four-digit dates from year 1 on are years of weeks. -/
theorem isoYear_bounds {t : DateTime} (hlo : 1 ≤ t.year) (hhi : t.year ≤ 9999) :
    0 ≤ (isoWeek t).1 ∧ (isoWeek t).1 ≤ 9999 := by
  have hfirst : daysFromCivil ⟨1, 1, 1⟩ = -719162 := by decide
  have hlast : daysFromCivil ⟨10000, 1, 1⟩ = 2932897 := by decide
  have hzero := year_lt_iff (7 * weekOf t) 1
  have htop := year_lt_iff (7 * weekOf t) 10000
  have hday := year_lt_iff (t.secs / 86400) 1
  have hday' := year_lt_iff (t.secs / 86400) 10000
  have hyear : (civilFromDays (t.secs / 86400)).year = t.year := rfl
  rw [isoWeek_eq]
  simp only
  unfold weekOf at *
  omega

/-! ### Names of weeks -/

theorem fixed_succ (w n : ℕ) : fixed (w + 1) n = fixed w (n / 10) ++ [digit n] := by
  induction w with
  | zero => simp [fixed]
  | succ w ih =>
    rw [fixed, ih, fixed, List.cons_append, Nat.div_div_eq_div_mul, ← pow_succ']

theorem fixed_zero (w : ℕ) : fixed w 0 = List.replicate w '0' := by
  induction w with
  | zero => rfl
  | succ w ih =>
    rw [fixed, Nat.zero_div, ih, List.replicate_succ]
    rfl

theorem digitChar_mod (n : ℕ) : Nat.digitChar (n % 10) = digit n := by
  have hdigits : ∀ k < 10, Nat.digitChar k = Char.ofNat (48 + k) := by decide
  exact hdigits (n % 10) (Nat.mod_lt n (by decide))

/-- Digits filled with zeros are the last digits. -/
theorem replicate_append_toDigits {w n : ℕ} (hw : 0 < w) (hn : n < 10 ^ w) :
    List.replicate (w - (Nat.toDigits 10 n).length) '0' ++ Nat.toDigits 10 n = fixed w n := by
  induction w generalizing n with
  | zero => cases hw
  | succ w ih =>
    rw [fixed_succ]
    by_cases hsmall : n < 10
    · rw [Nat.toDigits_of_lt_base hsmall, Nat.div_eq_of_lt hsmall, fixed_zero, ← digitChar_mod,
        Nat.mod_eq_of_lt hsmall]
      rfl
    · have hpos : 0 < w := by
        rcases Nat.eq_zero_or_pos w with rfl | hpos
        · omega
        · exact hpos
      have hrest := ih hpos (n := n / 10) (by rw [pow_succ] at hn; omega)
      rw [Nat.toDigits_of_base_le (by decide) (by omega), digitChar_mod, List.length_append,
        List.length_singleton, Nat.add_sub_add_right, ← List.append_assoc, hrest]

theorem toList_zeroPadded {w : ℕ} {n : ℤ} (hw : 0 < w) (h0 : 0 ≤ n) (hn : n < 10 ^ w) :
    (zeroPadded w n).toList = fixed w n.toNat := by
  have hnat : n.natAbs < 10 ^ w := by
    zify
    rwa [abs_of_nonneg h0]
  have habs : n.toNat = n.natAbs := by omega
  rw [zeroPadded, if_neg (not_lt.2 h0), habs, ← replicate_append_toDigits hw hnat]
  simp [← String.length_toList]

/-- In the years 1 to 9999, names are ordered as the weeks. -/
theorem weekName_lt_iff {a b : DateTime} (ha : 1 ≤ a.year ∧ a.year ≤ 9999)
    (hb : 1 ≤ b.year ∧ b.year ≤ 9999) : weekName a < weekName b ↔ weekOf a < weekOf b := by
  have hname {t : DateTime} (ht : 1 ≤ t.year ∧ t.year ≤ 9999) : (weekName t).toList =
      fixed 4 (isoWeek t).1.toNat ++ '-' :: 'W' :: fixed 2 (isoWeek t).2.toNat := by
    have hyear := isoYear_bounds ht.1 ht.2
    have hweek := isoWeek_bounds t
    rw [weekName, String.toList_append, String.toList_append,
      toList_zeroPadded (by decide) hyear.1 (by norm_num; omega),
      toList_zeroPadded (by decide) (by omega) (by norm_num; omega)]
    simp
  have hyear := isoYear_bounds ha.1 ha.2
  have hyear' := isoYear_bounds hb.1 hb.2
  have hweek := isoWeek_bounds a
  have hweek' := isoWeek_bounds b
  rw [String.lt_iff_toList_lt, hname ha, hname hb, append_lt_append_iff (by simp),
    List.cons_lt_cons_iff, List.cons_lt_cons_iff, fixed_lt_fixed_iff, fixed_lt_fixed_iff,
    ← isoWeek_lt_iff]
  have hsame : fixed 4 (isoWeek a).1.toNat = fixed 4 (isoWeek b).1.toNat ↔
      (isoWeek a).1.toNat = (isoWeek b).1.toNat :=
    ⟨fixed_inj (by omega) (by omega), fun h => by rw [h]⟩
  simp only [lt_self_iff_false, false_or, true_and, hsame]
  omega

/-! ### Days -/

/-- Nanoseconds from one instant to another, without leap seconds. -/
def elapsed (now t : DateTime) : ℤ :=
  (t.secs - now.secs) * nanosPerSecond + (t.nanos - now.nanos)

theorem signedDurationSince_eq {now t : DateTime} (hnow : now.nanos < nanosPerSecond)
    (ht : t.nanos < nanosPerSecond) : t.signedDurationSince now = elapsed now t := by
  have hleap : ¬ nanosPerSecond ≤ now.nanos := by omega
  have hleap' : ¬ nanosPerSecond ≤ t.nanos := by omega
  rw [DateTime.signedDurationSince, elapsed]
  simp only [hleap, hleap', and_false, if_false, add_zero]
  have hsecs : (t.secs / 86400 - now.secs / 86400) * 86400 + (t.secs % 86400 - now.secs % 86400) =
      t.secs - now.secs := by omega
  rw [hsecs]

theorem lt_iff_elapsed {now t : DateTime} (hnow : now.nanos < nanosPerSecond)
    (ht : t.nanos < nanosPerSecond) : t < now ↔ elapsed now t < 0 := by
  rw [DateTime.lt_def]
  unfold elapsed nanosPerSecond at *
  omega

/-- The days from now are the whole days that have passed, rounded down. -/
theorem daysFromNow_eq {now t : DateTime} (hnow : now.nanos < nanosPerSecond)
    (ht : t.nanos < nanosPerSecond) :
    daysFromNow now t = elapsed now t / (86400 * nanosPerSecond) := by
  rw [daysFromNow, signedDurationSince_eq hnow ht, Deadlines.daysBetween,
    signedDurationSince_eq hnow ht]
  simp only [lt_iff_elapsed hnow ht]
  generalize elapsed now t = d
  unfold durationDays numHours numSeconds nanosPerSecond
  -- the quotients of a time that has not passed are rounded down anyway
  have hquot {k : ℤ} (hk : 0 ≤ k) :
      ((k.tdiv (1000000000 : ℕ)).tdiv 3600).tdiv 24 = k / (86400 * (1000000000 : ℕ)) := by
    rw [Int.tdiv_eq_ediv_of_nonneg hk, Int.tdiv_eq_ediv_of_nonneg (Int.ediv_nonneg hk (by decide)),
      Int.tdiv_eq_ediv_of_nonneg (by omega)]
    omega
  rcases lt_or_ge d 0 with hd | hd
  · obtain ⟨k, rfl⟩ : ∃ k : ℤ, d = -k := ⟨-d, by omega⟩
    simp only [Int.neg_tdiv, hquot (k := k) (by omega)]
    split_ifs <;> omega
  · rw [if_neg (by omega), hquot hd]

/-- Overdue is what is due before now. -/
theorem daysFromNow_neg_iff {now t : DateTime} (hnow : now.nanos < nanosPerSecond)
    (ht : t.nanos < nanosPerSecond) : daysFromNow now t < 0 ↔ t < now := by
  rw [daysFromNow_eq hnow ht, lt_iff_elapsed hnow ht]
  unfold nanosPerSecond
  omega

/-! ### The entries -/

/-- The instant an open request is listed at, if its marker is read and within the horizon. -/
def dueAt (horizon : DateTime) (request : RequestRow) : Option DateTime :=
  if request.resolvedAt = "" then
    match parseTime (markerOf request).1 with
    | .ok (some t) => if t ≤ horizon then some t else none
    | _ => none
  else none

/-- The requests that are listed, with their instants. -/
def due (horizon : DateTime) (requests : List RequestRow) : List (RequestRow × DateTime) :=
  requests.filterMap fun request => (dueAt horizon request).map fun t => (request, t)

theorem dueAt_of_listedAt {horizon : DateTime} {request : RequestRow} {listed : Option DateTime}
    (h : listedAt horizon request = .ok listed) : dueAt horizon request = listed := by
  rw [listedAt] at h
  rw [dueAt]
  by_cases hopen : request.resolvedAt = ""
  · rw [if_neg (not_not.2 hopen)] at h
    rw [if_pos hopen]
    cases hparse : parseTime (markerOf request).1 with
    | error message =>
      rw [hparse] at h
      cases h
    | ok t =>
      rw [hparse] at h
      cases h
      cases t with
      | none => rfl
      | some t => simp [Option.filter]
  · rw [if_pos hopen] at h
    cases h
    rw [if_neg hopen]

def entryOf (now : DateTime) (listed : RequestRow × DateTime) : Json :=
  entryValue listed.1 (daysFromNow now listed.2)

/-- The entries of a week. -/
def inWeek (now : DateTime) (listed : List (RequestRow × DateTime)) (name : String) : List Json :=
  (listed.filter fun entry => weekName entry.2 = name).map (entryOf now)

/-- The buckets hold what has been listed. -/
structure Holds (now : DateTime) (buckets : Buckets) (listed : List (RequestRow × DateTime)) :
    Prop where
  get_eq : ∀ name, (buckets.weeks.get name).getD [] = inWeek now listed name
  ne_nil : ∀ week ∈ buckets.weeks.entries, week.2 ≠ []
  entries_eq : buckets.entries = listed.length
  overdue_eq : buckets.overdue = listed.countP fun entry => daysFromNow now entry.2 < 0

theorem holds_start (now : DateTime) : Holds now .start [] where
  get_eq _ := rfl
  ne_nil _ hweek := nomatch hweek
  entries_eq := rfl
  overdue_eq := rfl

/-- One round lists one request, if it is due. -/
theorem holds_listRequest {now horizon : DateTime} {buckets buckets' : Buckets}
    {listed : List (RequestRow × DateTime)} (hholds : Holds now buckets listed)
    {request : RequestRow} (h : listRequest now horizon buckets request = .ok buckets') :
    Holds now buckets' (listed ++ due horizon [request]) := by
  obtain ⟨t, ht, hnext⟩ := Result.bind_eq_ok.1 h
  have hdue := dueAt_of_listedAt ht
  cases t with
  | none =>
    cases hnext
    have hnone : due horizon [request] = [] := by simp [due, hdue]
    rwa [hnone, List.append_nil]
  | some t =>
    cases hnext
    have hone : due horizon [request] = [(request, t)] := by simp [due, hdue]
    rw [hone]
    refine ⟨fun name => ?_, fun week hweek => ?_, ?_, ?_⟩
    · rw [BTreeMap.get_alter, inWeek, List.filter_append, List.map_append]
      by_cases hname : name = weekName t
      · rw [if_pos hname, Option.getD_some, hholds.get_eq, hname]
        simp [inWeek, entryOf]
      · rw [if_neg hname, hholds.get_eq]
        simp [inWeek, Ne.symm hname]
    · rcases BTreeMap.mem_alter.1 hweek with rfl | ⟨hmem, -⟩
      · simp
      · exact hholds.ne_nil week hmem
    · simp [hholds.entries_eq]
    · rw [List.countP_append, hholds.overdue_eq]
      by_cases hneg : daysFromNow now t < 0
      · simp [hneg]
      · simp [hneg]

theorem due_cons (horizon : DateTime) (request : RequestRow) (requests : List RequestRow) :
    due horizon (request :: requests) = due horizon [request] ++ due horizon requests := by
  rw [due, due, due, ← List.filterMap_append, List.singleton_append]

/-- The loop lists the requests that are due. -/
theorem holds_foldlM {now horizon : DateTime} {requests : List RequestRow}
    {buckets buckets' : Buckets} {listed : List (RequestRow × DateTime)}
    (hholds : Holds now buckets listed)
    (h : requests.foldlM (listRequest now horizon) buckets = .ok buckets') :
    Holds now buckets' (listed ++ due horizon requests) := by
  induction requests generalizing buckets listed with
  | nil =>
    cases h
    rwa [due, List.filterMap_nil, List.append_nil]
  | cons request requests ih =>
    obtain ⟨next, hnext, hrest⟩ := Result.foldlM_cons_eq_ok.1 h
    rw [due_cons, ← List.append_assoc]
    exact ih (holds_listRequest hholds hnext) hrest

/-! ### The calendar -/

/-- A calendar of what is listed, with the weeks of the given names. -/
structure CalendarOf (now : DateTime) (listed : List (RequestRow × DateTime)) (names : List String)
    (calendar : Json) : Prop where
  ascending : names.Pairwise (· < ·)
  mem_names : ∀ name, name ∈ names ↔ ∃ entry ∈ listed, weekName entry.2 = name
  weeks_eq : (itemsOf calendar "weeks").map (fun week =>
      (week.member "week", itemsOf week "entries")) =
    names.map fun name => (some (.string name), (inWeek now listed name).map goMapOrder)
  entries_eq : calendar.path ["totals", "entries"] = some (.int listed.length)
  overdue_eq : calendar.path ["totals", "overdue"] =
    some (.int (listed.countP fun entry => daysFromNow now entry.2 < 0))
  weeks_with_actions_eq : calendar.path ["totals", "weeks_with_actions"] =
    some (.int names.length)

theorem calendarOf_calendarValue {campaignId : String} {weeks : ℤ} {now horizon : DateTime}
    {buckets : Buckets} {listed : List (RequestRow × DateTime)} (h : Holds now buckets listed) :
    CalendarOf now listed (buckets.weeks.entries.map Prod.fst)
      (calendarValue campaignId weeks now horizon buckets) := by
  have hget : ∀ week ∈ buckets.weeks.entries, week.2 = inWeek now listed week.1 := by
    intro week hweek
    rw [← h.get_eq, BTreeMap.mem_entries_iff.1 hweek]
    rfl
  refine ⟨?_, fun name => ⟨fun hname => ?_, ?_⟩, ?_, ?_, ?_, ?_⟩
  · exact List.pairwise_map.2 buckets.weeks.ascending
  · obtain ⟨week, hweek, rfl⟩ := List.mem_map.1 hname
    have hne := h.ne_nil week hweek
    rw [hget week hweek, inWeek, ne_eq, List.map_eq_nil_iff] at hne
    obtain ⟨entry, hentry⟩ := List.exists_mem_of_ne_nil _ hne
    rw [List.mem_filter, decide_eq_true_eq] at hentry
    exact ⟨entry, hentry⟩
  · rintro ⟨entry, hentry, rfl⟩
    have hmem : entryOf now entry ∈ (buckets.weeks.get (weekName entry.2)).getD [] := by
      rw [h.get_eq]
      exact List.mem_map_of_mem (List.mem_filter.2 ⟨hentry, decide_eq_true rfl⟩)
    cases hlookup : buckets.weeks.get (weekName entry.2) with
    | none =>
      rw [hlookup] at hmem
      cases hmem
    | some entries =>
      have hweek : (weekName entry.2, entries) ∈ buckets.weeks.entries :=
        BTreeMap.mem_entries_iff.2 hlookup
      exact List.mem_map.2 ⟨_, hweek, rfl⟩
  · have hweek (week : String × List Json) :
        ((goMapOrder (.object [("week", .string week.1), ("entries", .array week.2)])).member "week",
          itemsOf (goMapOrder (.object [("week", .string week.1), ("entries", .array week.2)]))
            "entries") = (some (.string week.1), week.2.map goMapOrder) := by
      rw [member_goMapOrder, itemsOf_goMapOrder]
      simp [itemsOf, Map.get_cons, goMapOrder]
    rw [calendarValue, itemsOf_goMapOrder]
    simp only [itemsOf, member_object, Map.get_cons]
    simp only [String.reduceEq, if_false, if_true, List.map_map]
    refine List.map_congr_left fun week hmem => ?_
    simp only [Function.comp_apply, ← hget week hmem]
    exact hweek week
  · rw [calendarValue, path_goMapOrder]
    simp [path_cons, Map.get_cons, goMapOrder, h.entries_eq]
  · rw [calendarValue, path_goMapOrder]
    simp [path_cons, Map.get_cons, goMapOrder, h.overdue_eq]
  · rw [calendarValue, path_goMapOrder]
    simp [path_cons, Map.get_cons, goMapOrder]

theorem calendarOf_getCalendar {campaignId : String} {weeks : ℤ}
    (hweeks : 0 ≤ weeks ∧ weeks ≤ 10000) {now : DateTime} {c c' : Conn Store τ} {calendar : Json}
    (h : getCalendar campaignId weeks now c = (.ok calendar, c')) :
    ∃ horizon requests names,
      now.checkedAddSigned (durationDays (7 * weeks)) = some horizon ∧
      requests.Perm (reportedRows c.db campaignId) ∧
      CalendarOf now (due horizon requests) names calendar := by
  have hrun := (getCalendar_spec (A := AnyReply) c.db c.trace campaignId weeks now).run c ⟨rfl, rfl⟩
  rw [h] at hrun
  obtain ⟨-, horizon, requests, buckets, hhorizon, hperm, hbuckets, rfl⟩ := hrun
  have hwrap : wrapI64 (weeks * 7) = 7 * weeks := by
    rw [wrapI64_of_mem (by omega) (by omega), mul_comm]
  rw [horizonUntil, hwrap, daysLater] at hhorizon
  refine ⟨horizon, requests, _, ?_, hperm, calendarOf_calendarValue
    (holds_foldlM (holds_start now) hbuckets)⟩
  split at hhorizon
  · next later hlater =>
    cases hhorizon
    exact hlater
  · cases hhorizon

/-- A calendar that is made has one entry for each open request whose marker is read and not after
the weeks, in the bucket of the week of the marker, and the totals count them.  Apart from leap
seconds the days are rounded down and overdue is what is due before now; in the years 1 to 9999 the
buckets ascend in time. -/
theorem calendar_complete {campaignId : String} {weeks : ℤ} (hweeks : 0 ≤ weeks ∧ weeks ≤ 10000)
    {now : DateTime} {c c' : Conn Store τ} {calendar : Json}
    (h : getCalendar campaignId weeks now c = (.ok calendar, c')) :
    ∃ horizon requests names,
      now.checkedAddSigned (durationDays (7 * weeks)) = some horizon ∧
      requests.Perm (reportedRows c.db campaignId) ∧
      CalendarOf now (due horizon requests) names calendar ∧
      (∀ entry ∈ due horizon requests, now.nanos < nanosPerSecond →
        entry.2.nanos < nanosPerSecond →
          daysFromNow now entry.2 = elapsed now entry.2 / (86400 * nanosPerSecond) ∧
          (daysFromNow now entry.2 < 0 ↔ entry.2 < now)) ∧
      ∀ entry ∈ due horizon requests, ∀ entry' ∈ due horizon requests,
        1 ≤ entry.2.year ∧ entry.2.year ≤ 9999 → 1 ≤ entry'.2.year ∧ entry'.2.year ≤ 9999 →
          (weekName entry.2 < weekName entry'.2 ↔ weekOf entry.2 < weekOf entry'.2) := by
  obtain ⟨horizon, requests, names, hhorizon, hperm, hcalendar⟩ := calendarOf_getCalendar hweeks h
  exact ⟨horizon, requests, names, hhorizon, hperm, hcalendar,
    fun entry _ hnow ht => ⟨daysFromNow_eq hnow ht, daysFromNow_neg_iff hnow ht⟩,
    fun entry _ entry' _ ha hb => weekName_lt_iff ha hb⟩

/-- The calendar of a request that is waited for until February. -/
theorem calendar_complete_waiting : ∃ calendar c',
    getCalendar "" 8 epoch ((waitingStore "1970-02-01T00:00:00Z").connect : Conn Store Unit) =
        (.ok calendar, c') ∧
      ∃ horizon requests names,
        epoch.checkedAddSigned (durationDays (7 * 8)) = some horizon ∧
        requests.Perm (reportedRows (waitingStore "1970-02-01T00:00:00Z") "") ∧
        CalendarOf epoch (due horizon requests) names calendar := by
  obtain ⟨calendar, c', hrun⟩ : ∃ calendar c', getCalendar "" 8 epoch
      ((waitingStore "1970-02-01T00:00:00Z").connect : Conn Store Unit) = (.ok calendar, c') :=
    ⟨_, _, Prod.ext rfl rfl⟩
  obtain ⟨horizon, requests, names, hhorizon, hperm, hcalendar, -⟩ :=
    calendar_complete (by decide) hrun
  exact ⟨calendar, c', hrun, horizon, requests, names, hhorizon, hperm, hcalendar⟩

/-- The request of `waitingStore`. -/
def waitingRow (deadline : String) : RequestRow where
  id := 1
  brokerId := "acme"
  channel := "email"
  campaignId := "spring"
  createdAt := "2026-01-01 00:00:00"
  jurisdiction := "GDPR"
  templateId := "gdpr-art17.md.j2"
  currentStatus := "AWAITING_ACK"
  sentAt := "2026-01-01 00:00:00"
  acknowledgedAt := ""
  resolvedAt := ""
  deadlineAt := deadline
  nextActionAt := ""
  lastEventAt := "2026-01-01 00:00:00"
  remindersSent := 1
  escalationLevel := 0

/-- A marker in the year 0 is listed, and a marker in a leap second is before the second after it
but not overdue then. -/
theorem not_calendar_complete :
    (∃ calendar c' t, getCalendar "" 4 epoch
        ((waitingStore "0000-06-01T00:00:00Z").connect : Conn Store Unit) = (.ok calendar, c') ∧
      reportedRows (waitingStore "0000-06-01T00:00:00Z") "" =
        [waitingRow "0000-06-01T00:00:00+00:00"] ∧
      parseTime "0000-06-01T00:00:00+00:00" = .ok (some t) ∧ ¬ (1 ≤ t.year ∧ t.year ≤ 9999) ∧
      calendar.path ["totals", "entries"] = some (.int 1)) ∧
    ∃ now calendar c' t, getCalendar "" 4 now
        ((waitingStore "2016-12-31T23:59:60Z").connect : Conn Store Unit) = (.ok calendar, c') ∧
      reportedRows (waitingStore "2016-12-31T23:59:60Z") "" =
        [waitingRow "2016-12-31T23:59:60+00:00"] ∧
      parseTime "2016-12-31T23:59:60+00:00" = .ok (some t) ∧ t < now ∧ 1970 ≤ now.year ∧
      calendar.path ["totals", "overdue"] = some (.int 0) := by
  constructor
  · obtain ⟨calendar, c', hrun⟩ : ∃ calendar c', getCalendar "" 4 epoch
        ((waitingStore "0000-06-01T00:00:00Z").connect : Conn Store Unit) = (.ok calendar, c') :=
      ⟨_, _, Prod.ext rfl rfl⟩
    obtain ⟨horizon, requests, names, hhorizon, hperm, hcalendar⟩ :=
      calendarOf_getCalendar (by decide) hrun
    refine ⟨calendar, c', _, hrun, rfl, rfl, by decide, ?_⟩
    have hlater : epoch.checkedAddSigned (durationDays (7 * 4)) =
        some (.ofSecs 2419200 (by decide)) := by decide
    rw [hlater] at hhorizon
    cases hhorizon
    obtain rfl : requests = [waitingRow "0000-06-01T00:00:00+00:00"] := List.perm_singleton.1 hperm
    exact hcalendar.entries_eq
  · obtain ⟨calendar, c', hrun⟩ : ∃ calendar c', getCalendar "" 4 (.ofSecs 1483228800 (by decide))
        ((waitingStore "2016-12-31T23:59:60Z").connect : Conn Store Unit) = (.ok calendar, c') :=
      ⟨_, _, Prod.ext rfl rfl⟩
    obtain ⟨horizon, requests, names, hhorizon, hperm, hcalendar⟩ :=
      calendarOf_getCalendar (by decide) hrun
    refine ⟨_, calendar, c', _, hrun, rfl, rfl, by decide, by decide, ?_⟩
    have hlater : (DateTime.ofSecs 1483228800 (by decide)).checkedAddSigned (durationDays (7 * 4)) =
        some (.ofSecs 1485648000 (by decide)) := by decide
    rw [hlater] at hhorizon
    cases hhorizon
    obtain rfl : requests = [waitingRow "2016-12-31T23:59:60+00:00"] := List.perm_singleton.1 hperm
    exact hcalendar.overdue_eq

end EraseMe.Reporting
