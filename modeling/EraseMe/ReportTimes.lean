import EraseMe.Library.ChronoReading
import EraseMe.ReportSafety

/-!
# Two readers of timestamps

The event store reads timestamps by `Timeutil.parseTimestamp`, the reports by `parseTime`.  The
first accepts layouts that the second does not, so a request can have a date for the one and none
for the other.  Where both find an instant it is the same one, but for texts that the reports cut
within the digits of the seconds, and both read what the store writes (`readers_agree`).
-/

namespace EraseMe.Timeutil

open Chrono Decimal Text

/-! ### What the event store reads -/

/-- A number starts with a digit or with a sign. -/
def NumberStart (c : Char) : Prop := c.isDigit = true ∨ c = '+' ∨ c = '-'

theorem NumberStart.not_upper {c : Char} (hc : NumberStart c) : c.isUpper = false := by
  rcases hc with hdigit | rfl | rfl
  · rw [isDigit_iff] at hdigit
    rw [Bool.eq_false_iff]
    intro hupper
    obtain ⟨hlo, -⟩ : 65 ≤ c.toNat ∧ c.toNat ≤ 90 := of_decide_eq_true hupper
    omega
  · rfl
  · rfl

theorem NumberStart.ne_comma {c : Char} (hc : NumberStart c) : c ≠ ',' := by
  rintro rfl
  rcases hc with h | h | h <;> revert h <;> decide

theorem upper_of_mem_weekdays : ∀ name ∈ weekdays ++ longWeekdays,
    name.head?.any Char.isUpper = true := by decide

/-- What comes before the last separator. -/
theorem prefix_of_rsplitOnce {sep : Char} {s head zone : List Char}
    (h : rsplitOnce sep s = some (head, zone)) : head <+: s := by
  obtain ⟨⟨tail, rest⟩, hsplit, heq⟩ := Option.map_eq_some_iff.1 h
  cases heq
  rw [splitOnce] at hsplit
  split_ifs at hsplit
  cases hsplit
  rw [← List.reverse_suffix, List.reverse_reverse]
  exact (List.drop_suffix _ _).trans (List.dropWhile_suffix _)

/-- The part of such a text before its first comma is no weekday. -/
theorem weekdayPrefix_eq_none {names : List (List Char)} (hnames : names ⊆ weekdays ++ longWeekdays)
    {c : Char} (hc : NumberStart c) {s head : List Char} (hhead : head <+: c :: s) :
    weekdayPrefix names head = none := by
  cases head with
  | nil => rfl
  | cons d t =>
    obtain ⟨rfl, -⟩ := List.cons_prefix_cons.1 hhead
    by_cases hcomma : ',' ∈ d :: t
    · have hfirst : (d :: t).takeWhile (· != ',') = d :: t.takeWhile (· != ',') :=
        List.takeWhile_cons_of_pos (by simpa using hc.ne_comma)
      have hnot : d :: t.takeWhile (· != ',') ∉ names := by
        intro hmem
        have hupper := upper_of_mem_weekdays _ (hnames hmem)
        rw [List.head?_cons, Option.any_some, hc.not_upper] at hupper
        cases hupper
      rw [weekdayPrefix, splitOnce, if_pos hcomma, hfirst]
      exact if_neg hnot
    · rw [weekdayPrefix, splitOnce, if_neg hcomma]
      rfl

/-- The RFC forms start with a weekday. -/
theorem parseRfc_eq_none {c : Char} (hc : NumberStart c) (s : List Char) :
    parseRfc1123Numeric (c :: s) = none ∧ parseRfc1123Alpha (c :: s) = none ∧
      parseRfc850 (c :: s) = none := by
  have hshort {head : List Char} (h : head <+: c :: s) : rfc1123Prefix head = none :=
    weekdayPrefix_eq_none (List.subset_append_left _ _) hc h
  have hlong {head : List Char} (h : head <+: c :: s) : rfc850Prefix head = none :=
    weekdayPrefix_eq_none (List.subset_append_right _ _) hc h
  refine ⟨Option.eq_none_iff_forall_ne_some.2 fun t ht => ?_,
    Option.eq_none_iff_forall_ne_some.2 fun t ht => ?_,
    Option.eq_none_iff_forall_ne_some.2 fun t ht => ?_⟩
  · obtain ⟨⟨head, zone⟩, hsplit, ht⟩ := Option.bind_eq_some_iff.1 ht
    obtain ⟨head', hweekday, -⟩ := Option.bind_eq_some_iff.1 ht
    rw [hshort (prefix_of_rsplitOnce hsplit)] at hweekday
    cases hweekday
  · obtain ⟨head, hzone, ht⟩ := Option.bind_eq_some_iff.1 ht
    obtain ⟨⟨head', zone⟩, hsplit, hhead⟩ := Option.bind_eq_some_iff.1 hzone
    obtain ⟨head'', hweekday, -⟩ := Option.bind_eq_some_iff.1 ht
    obtain rfl : head' = head := by
      dsimp only at hhead
      split_ifs at hhead
      exact Option.some.inj hhead
    rw [hshort (prefix_of_rsplitOnce hsplit)] at hweekday
    cases hweekday
  · obtain ⟨⟨head, zone⟩, hsplit, ht⟩ := Option.bind_eq_some_iff.1 ht
    obtain ⟨head', hweekday, -⟩ := Option.bind_eq_some_iff.1 ht
    rw [hlong (prefix_of_rsplitOnce hsplit)] at hweekday
    cases hweekday

theorem parseFields_eq_some {layout : List Item} {s : List Char} {p : Parsed} :
    parseFields layout s = some p ↔ parseItems layout {} s = some (p, []) := by
  rw [parseFields]
  constructor
  · intro h
    split at h
    · next hread =>
      cases h
      exact hread
    · cases h
  · intro h
    rw [h]

/-- A layout with a fraction reads what the layout without one reads. -/
theorem parseOffset_fraction {sep : Item} {s : List Char} {t : DateTime}
    (h : parseOffset (wall sep ++ [.offset]) s = some t) :
    parseOffset (wall sep ++ [.fraction, .offset]) s = some t := by
  obtain ⟨p, hfields, ht⟩ := Option.bind_eq_some_iff.1 h
  rw [parseFields_eq_some, parseItems_append] at hfields
  obtain ⟨⟨q, r⟩, hwall, hrest⟩ := Option.bind_eq_some_iff.1 hfields
  obtain ⟨⟨q', r'⟩, hoffset, heq⟩ := Option.bind_eq_some_iff.1 hrest
  obtain ⟨⟨o, r''⟩, hread, -⟩ := Option.map_eq_some_iff.1 hoffset
  obtain ⟨c, a, b, between, d, e, htrim, hsign, -⟩ := readOffset_cases hread
  -- an offset does not start with a dot
  have hdot : r.head? ≠ some '.' := by
    intro hhead
    obtain ⟨u, rfl⟩ := List.head?_eq_some_iff.1 hhead
    rw [trimStart_cons (by decide)] at htrim
    obtain ⟨rfl, -⟩ := List.cons.inj htrim
    cases hsign
  refine Option.bind_eq_some_iff.2 ⟨p, parseFields_eq_some.2 ?_, ht⟩
  rw [parseItems_append, hwall]
  show (Item.fraction.parse q r).bind _ = _
  rw [fraction_parse_of_ne hdot]
  exact hrest

theorem parseNaive_fraction {sep : Item} {s : List Char} {t : DateTime}
    (h : parseNaive (wall sep) s = some t) : parseNaive (wall sep ++ [.fraction]) s = some t := by
  obtain ⟨p, hfields, ht⟩ := Option.bind_eq_some_iff.1 h
  rw [parseFields_eq_some] at hfields
  refine Option.bind_eq_some_iff.2 ⟨p, parseFields_eq_some.2 ?_, ht⟩
  rw [parseItems_append, hfields]
  rfl

/-- The texts tried with an offset. -/
def offsetInputs (input : List Char) : List (List Char) :=
  normalizeZ (normalizeCommaFraction input) ++ [normalizeCommaFraction input, input]

/-- A text that starts with a number is read by a wall-clock layout, with an offset or without. -/
theorem parse_cases {s : String} {t : DateTime} (h : parse s = .ok t) {c : Char} {r : List Char}
    (hs : trim s.toList = c :: r) (hc : NumberStart c) :
    ∃ sep, (sep = .literal 'T' ∨ sep = .space) ∧
      ((∃ u ∈ offsetInputs (trim s.toList),
          parseOffset (wall sep ++ [.fraction, .offset]) u = some t) ∨
        parseNaive (wall sep ++ [.fraction]) (normalizeCommaFraction (trim s.toList)) = some t) := by
  have hparse : parseTrimmed (trim s.toList) = some t := by
    rw [parse] at h
    split_ifs at h
    split at h
    · next hread =>
      cases h
      exact hread
    · cases h
  rw [parseTrimmed, Option.orElse_eq_some, Option.orElse_eq_some] at hparse
  rcases hparse with hoffset | ⟨-, hparse⟩
  · obtain ⟨u, hu, hlayout⟩ := List.exists_of_findSome?_eq_some hoffset
    obtain ⟨layout, hmem, hread⟩ := List.exists_of_findSome?_eq_some hlayout
    simp only [offsetLayouts, List.mem_cons, List.not_mem_nil, or_false] at hmem
    rcases hmem with rfl | rfl | rfl | rfl
    · exact ⟨_, Or.inl rfl, Or.inl ⟨u, hu, hread⟩⟩
    · exact ⟨_, Or.inr rfl, Or.inl ⟨u, hu, hread⟩⟩
    · exact ⟨_, Or.inl rfl, Or.inl ⟨u, hu, parseOffset_fraction hread⟩⟩
    · exact ⟨_, Or.inr rfl, Or.inl ⟨u, hu, parseOffset_fraction hread⟩⟩
  · rcases hparse with hnaive | ⟨-, hrfc⟩
    · obtain ⟨layout, hmem, hread⟩ := List.exists_of_findSome?_eq_some hnaive
      simp only [naiveLayouts, List.mem_cons, List.not_mem_nil, or_false] at hmem
      rcases hmem with rfl | rfl | rfl | rfl
      · exact ⟨_, Or.inl rfl, Or.inr hread⟩
      · exact ⟨_, Or.inr rfl, Or.inr hread⟩
      · exact ⟨_, Or.inl rfl, Or.inr (parseNaive_fraction hread)⟩
      · exact ⟨_, Or.inr rfl, Or.inr (parseNaive_fraction hread)⟩
    · obtain ⟨hnumeric, halpha, hrfc850⟩ := parseRfc_eq_none hc r
      rw [hs, hnumeric, halpha, hrfc850] at hrfc
      cases hrfc

/-! ### The rewritten texts -/

/-- Commas that become points. -/
theorem exists_normalize (s : List Char) : ∃ f : ℕ → Char → Char,
    normalizeCommaFraction s = s.mapIdx f ∧ ∀ i c, f i c = c ∨ c = ',' ∧ f i c = '.' := by
  refine ⟨_, rfl, fun i c => ?_⟩
  split_ifs with h
  · exact Or.inr ⟨h.2.1, rfl⟩
  · exact Or.inl rfl

theorem mapIdx_eq_self {f : ℕ → Char → Char} (hf : ∀ i c, f i c = c ∨ c = ',' ∧ f i c = '.')
    {s : List Char} (hs : ',' ∉ s) : s.mapIdx f = s := by
  refine List.ext_getElem (by simp) fun i hi hi' => ?_
  rw [List.getElem_mapIdx]
  rcases hf i s[i] with h | ⟨h, -⟩
  · exact h
  · exact absurd (h ▸ List.getElem_mem hi') hs

/-- A text without commas stays in front, and the text behind it starts as it did or with a
point. -/
theorem normalize_append {a b : List Char} {c : Char} (ha : ',' ∉ a) (hb : ',' ∉ b)
    (tail : List Char) : ∃ c' tail', (c' = c ∨ c' = '.') ∧
      normalizeCommaFraction (a ++ c :: (b ++ tail)) = a ++ c' :: (b ++ tail') := by
  obtain ⟨f, hnormalize, hf⟩ := exists_normalize (a ++ c :: (b ++ tail))
  rw [hnormalize, List.mapIdx_append, mapIdx_eq_self hf ha, List.mapIdx_cons, List.mapIdx_append]
  have hb' : b.mapIdx (fun i => f (i + 1 + a.length)) = b := mapIdx_eq_self (fun i => hf _) hb
  rw [hb']
  exact ⟨_, _, (hf _ c).imp_right And.right, rfl⟩

theorem mem_offsetInputs {input u : List Char} (h : u ∈ offsetInputs input) :
    u = normalizeCommaFraction input ∨ u = input ∨
      ∃ b, normalizeCommaFraction input = b ++ ['Z'] ∧ u = b ++ "+00:00".toList := by
  rcases List.mem_append.1 h with h | h
  · rw [normalizeZ] at h
    split_ifs at h with hlast
    · refine Or.inr (Or.inr ⟨_, ?_, List.mem_singleton.1 h⟩)
      have hne : normalizeCommaFraction input ≠ [] := by
        intro hnil
        rw [hnil] at hlast
        cases hlast
      rw [List.getLast?_eq_some_getLast hne, Option.some.injEq] at hlast
      rw [← hlast, List.dropLast_append_getLast]
    · cases h
  · simp only [List.mem_cons, List.not_mem_nil, or_false] at h
    exact h.imp_right Or.inl

/-- A text that ends with another character than white space is cut at its start only. -/
theorem trim_of_last {a : List Char} {d : Char} (hd : isWhitespace d = false) :
    trim (a ++ [d]) = trimStart (a ++ [d]) := by
  rw [← trimStart_trimEnd, trimEnd_append_cons hd]
  rfl

theorem trimStart_trim (s : List Char) : trimStart (trim s) = trim s := by
  rw [← trimStart_trimEnd]
  exact List.dropWhile_idempotent _ _

/-- What is read by a wall-clock layout is read by one of the store's. -/
theorem parse_cases_of_wall {s : String} {t : DateTime} (h : parse s = .ok t) {sep : Item}
    {layout : List Item} {x : Parsed × List Char}
    (hread : parseItems (wall sep ++ layout) {} (trim s.toList) = some x) :
    ∃ sep, (sep = .literal 'T' ∨ sep = .space) ∧
      ((∃ u ∈ offsetInputs (trim s.toList),
          parseOffset (wall sep ++ [.fraction, .offset]) u = some t) ∨
        parseNaive (wall sep ++ [.fraction]) (normalizeCommaFraction (trim s.toList)) = some t) := by
  obtain ⟨c, r, hhead, hc⟩ := head_of_wall (q := x.1) (r := x.2) hread
  rw [trimStart_trim] at hhead
  exact parse_cases h hhead hc

end EraseMe.Timeutil

namespace EraseMe.Reporting

open Chrono Decimal Text Timeutil

/-! ### Agreement -/

/-- What separates the date from the time in a layout of the event store. -/
theorem separator_of {sep : Item} (h : sep = .literal 'T' ∨ sep = .space) : Separator sep := by
  rcases h with rfl | rfl
  · exact ⟨Or.inr (Or.inr (by decide)), by decide, by decide⟩
  · trivial

theorem comma_not_mem {a : List Char} (ha : ∀ c ∈ a, Written c) : ',' ∉ a := by
  intro h
  rcases ha ',' h with h | h | h <;> revert h <;> decide

theorem parseOffset_eq_some {layout : List Item} {s : List Char} {t : DateTime} :
    parseOffset layout s = some t ↔
      ∃ p, parseItems layout {} s = some (p, []) ∧ p.toUtc = some t := by
  rw [parseOffset, Option.bind_eq_some_iff]
  exact exists_congr fun p => and_congr_left' parseFields_eq_some

theorem parseNaive_eq_some {layout : List Item} {s : List Char} {t : DateTime} :
    parseNaive layout s = some t ↔
      ∃ p, parseItems layout {} s = some (p, []) ∧ p.toNaive = some t := by
  rw [parseNaive, Option.bind_eq_some_iff]
  exact exists_congr fun p => and_congr_left' parseFields_eq_some

/-- A layout of the event store reads from a text what another one does that reads a first part of
it. -/
theorem parseItems_unique {sep sep' : Item} (hsep : Separator sep) (hsep' : Separator sep')
    {layout rest : List Item} {s r : List Char} {p q : Parsed}
    (h : parseItems (wall sep ++ layout) {} s = some (p, r))
    (h' : parseItems (wall sep' ++ (layout ++ rest)) {} s = some (q, [])) :
    parseItems rest p r = some (q, []) := by
  obtain rfl := wall_unique hsep hsep' h h'
  rwa [← List.append_assoc, parseItems_append_of h] at h'

/-- A text without a zone is read in the same way by both. -/
theorem agrees_of_naive {s : String} {t t' : DateTime} {sep : Item}
    (hsep : sep = .literal 'T' ∨ sep = .space) (h : parseTimestamp s = .ok t)
    (hread : parseNaive (wall sep) s.toList = some t') : t' = t := by
  obtain ⟨p, hfields, hnaive⟩ := parseNaive_eq_some.1 hread
  have hseparator := separator_of hsep
  obtain ⟨a, d, hlast, hd⟩ := last_of_wall hseparator hfields
  have htrim : trim s.toList = trimStart s.toList := by
    rw [hlast]
    exact trim_of_last (isWhitespace_of_isDigit hd)
  have hinput : parseItems (wall sep ++ []) {} (trim s.toList) = some (p, []) := by
    rw [htrim, parseItems_wall_trimStart, List.append_nil]
    exact hfields
  obtain ⟨b, hb, hwritten, -⟩ := local_wall (fun w (hw : Stops w) => hw) hseparator {}
    (by rwa [List.append_nil] at hinput)
  have hcomma : normalizeCommaFraction (trim s.toList) = trim s.toList := by
    rw [hb, List.append_nil]
    exact normalizeCommaFraction_eq_self (comma_not_mem hwritten)
  obtain ⟨sep', hsep', hcase⟩ := parse_cases_of_wall h hinput
  rw [hcomma] at hcase
  rcases hcase with ⟨u, hu, hoffset⟩ | hnaive'
  · -- nothing is left for an offset
    have hu' : u = trim s.toList := by
      rcases mem_offsetInputs hu with rfl | rfl | ⟨b, hzulu, -⟩
      · exact hcomma
      · rfl
      · obtain ⟨a', d', hlast', hd'⟩ := last_of_wall hseparator (by rwa [List.append_nil] at hinput)
        rw [hcomma, hlast'] at hzulu
        have hz := List.append_inj_right' hzulu rfl
        rw [(List.cons.inj hz).1] at hd'
        cases hd'
    rw [hu'] at hoffset
    obtain ⟨q, hitems, -⟩ := parseOffset_eq_some.1 hoffset
    cases parseItems_unique hseparator (separator_of hsep') hinput hitems
  · obtain ⟨q, hitems, hq⟩ := parseNaive_eq_some.1 hnaive'
    cases parseItems_unique hseparator (separator_of hsep') hinput hitems
    rw [hnaive] at hq
    exact Option.some.inj hq

/-- The offset read behind the other fields. -/
theorem toUtc_of_offset {p q : Parsed} {naive t : DateTime} {s : List Char}
    (hnaive : p.toNaive = some naive) (h : parseItems [.offset] p s = some (q, []))
    (ht : q.toUtc = some t) : ∃ o, readOffset s = some (o, []) ∧ -86400 < o ∧ o < 86400 ∧
      DateTime.ofParts? (naive.secs - o) naive.nanos = some t := by
  obtain ⟨⟨q', r⟩, hoffset, heq⟩ := Option.bind_eq_some_iff.1 h
  cases heq
  obtain ⟨⟨o, r'⟩, hread, heq⟩ := Option.map_eq_some_iff.1 hoffset
  cases heq
  obtain ⟨naive', hnaive', ht⟩ := Option.bind_eq_some_iff.1 ht
  obtain ⟨o', ho, ht⟩ := Option.bind_eq_some_iff.1 ht
  cases Option.some.inj ho
  have hsame : some naive = some naive' := hnaive.symm.trans hnaive'
  cases hsame
  split_ifs at ht with hrange
  exact ⟨o, hread, hrange.1, hrange.2, ht⟩

/-- A text of RFC 3339 is read in the same way by both. -/
theorem agrees_of_rfc3339 {s : String} {t t' reading : DateTime} {offset : ℤ}
    (h : parseTimestamp s = .ok t) (hread : parseRfc3339 s.toList = some (reading, offset))
    (ht' : DateTime.ofParts? (reading.secs - offset) reading.nanos = some t') : t' = t := by
  obtain ⟨sep, q, zone, hsep, hitems, hzone, hnaive⟩ := parseRfc3339_cases hread
  have hseparator : Separator sep := by
    rcases hsep with rfl | rfl | rfl
    · exact separator_of (Or.inl rfl)
    · exact ⟨Or.inr (Or.inr (by decide)), by decide, by decide⟩
    · exact separator_of (Or.inr rfl)
  have hrest := readRfc3339Offset_cases hzone
  -- the zone has no comma and does not end with white space
  obtain ⟨b, d, hlast, hd, hcomma⟩ : ∃ b d, zone = b ++ [d] ∧ isWhitespace d = false ∧
      ',' ∉ zone := by
    rcases hrest with ⟨rfl | rfl, -⟩ | ⟨c, a, b, d, e, rfl, -, he, hcomma, -⟩
    · exact ⟨[], 'Z', rfl, by decide, by decide⟩
    · exact ⟨[], 'z', rfl, by decide, by decide⟩
    · exact ⟨[c, a, b, ':', d], e, rfl, isWhitespace_of_isDigit he, hcomma⟩
  let ends (w : List Char) : Prop := Stops w ∧ w.head? ≠ some '.'
  have hlocal : Local ends fun s => parseItems (wall sep ++ [.fraction]) {} s :=
    local_wall_fraction (fun w hw => hw) hseparator {}
  have hinput : parseItems (wall sep ++ [.fraction]) {} (trim s.toList) = some (q, zone) := by
    obtain ⟨a, ha, -⟩ := hlocal hitems
    have htrim : trim s.toList = trimStart s.toList := by
      rw [ha, hlast, ← List.append_assoc]
      exact trim_of_last hd
    rw [htrim, parseItems_wall_trimStart]
    exact hitems
  obtain ⟨a, ha, hwritten, hbefore⟩ := hlocal hinput
  have hfraction : normalizeCommaFraction (trim s.toList) = trim s.toList := by
    refine normalizeCommaFraction_eq_self ?_
    rw [ha, List.mem_append, not_or]
    exact ⟨comma_not_mem hwritten, hcomma⟩
  obtain ⟨sep', hsep', hcase⟩ := parse_cases_of_wall h hinput
  rw [hfraction] at hcase
  rcases hcase with ⟨u, hu, hoffset⟩ | hnaive'
  · obtain ⟨q', hitems', hq'⟩ := parseOffset_eq_some.1 hoffset
    have hu' : u = trim s.toList ∨ zone = ['Z'] ∧ u = a ++ "+00:00".toList := by
      rcases mem_offsetInputs hu with rfl | rfl | ⟨before, hzulu, rfl⟩
      · exact Or.inl hfraction
      · exact Or.inl rfl
      · rw [hfraction, ha] at hzulu
        have hzone : zone = ['Z'] := by
          rcases hrest with ⟨rfl | rfl, -⟩ | ⟨c, x, y, d', e, rfl, -, he, -⟩
          · rfl
          · have hlast' := List.append_inj_right' hzulu rfl
            cases hlast'
          · have hend := congrArg List.getLast? hzulu
            simp only [List.getLast?_append, List.getLast?_cons_cons, List.getLast?_singleton,
              Option.some_or, Option.some.injEq] at hend
            subst hend
            cases he
        rw [hzone] at hzulu
        exact Or.inr ⟨hzone, by rw [List.append_inj_left' hzulu rfl]⟩
    rcases hu' with rfl | ⟨rfl, rfl⟩
    · have hoffset' : parseItems [.offset] q zone = some (q', []) :=
        parseItems_unique hseparator (separator_of hsep') hinput hitems'
      obtain ⟨o, ho, -, -, ht⟩ := toUtc_of_offset hnaive hoffset' hq'
      rcases hrest with ⟨rfl | rfl, -⟩ | ⟨c, a, b, d, e, -, -, -, -, hsame, -⟩
      · cases ho
      · cases ho
      · rw [hsame] at ho
        cases ho
        rw [ht'] at ht
        exact Option.some.inj ht
    · have hplus : ends "+00:00".toList := ⟨by simp [Stops], by decide⟩
      have hoffset' : parseItems [.offset] q "+00:00".toList = some (q', []) :=
        parseItems_unique hseparator (separator_of hsep') (hbefore _ (Or.inl hplus)) hitems'
      obtain ⟨o, ho, -, -, ht⟩ := toUtc_of_offset hnaive hoffset' hq'
      have hzero : o = offset := by
        have hread0 : readOffset "+00:00".toList = some (0, []) := by decide
        rw [hread0] at ho
        cases ho
        rcases hrest with ⟨-, rfl⟩ | ⟨c, x, y, d', e, hzone', -⟩
        · rfl
        · cases hzone'
      rw [hzero, ht'] at ht
      exact Option.some.inj ht
  · obtain ⟨q', hitems', -⟩ := parseNaive_eq_some.1 hnaive'
    have hend : parseItems [] q zone = some (q', []) :=
      parseItems_unique hseparator (separator_of hsep') hinput hitems'
    cases hend
    cases hzone

/-! ### The text that is cut -/

/-- Nineteen octets of the text are a timestamp that ends with the first digit of the seconds; an
offset follows the second one. -/
def CutSeconds (s : List Char) : Prop :=
  ∃ head c zone tail t, s = head ++ c :: (zone ++ tail) ∧ Slices.size head = 19 ∧
    parseNaive (wall .space) head = some t ∧ c.isDigit = true ∧ Slices.size zone = 5 ∧
    (readOffset zone).isSome = true

theorem eq_nil_of_size {s : List Char} (h : Slices.size s = 0) : s = [] :=
  List.length_eq_zero_iff.1 (Nat.le_zero.1 (h ▸ Slices.length_le_size s))

/-- An offset of five octets is a sign and four digits. -/
theorem readOffset_five {zone r : List Char} {o : ℤ} (hsize : Slices.size zone = 5)
    (h : readOffset zone = some (o, r)) :
    ∃ c a b d e, zone = [c, a, b, d, e] ∧ (c = '+' ∨ c = '-') ∧ a.isDigit = true ∧
      e.isDigit = true ∧ ',' ∉ zone ∧
      ∀ s' r', trimStart s' = zone ++ r' → readOffset s' = some (o, r') := by
  obtain ⟨c, a, b, between, d, e, htrim, hsign, ha, hb, hd, he, hread⟩ := readOffset_cases h
  obtain ⟨blank, hblank⟩ : ∃ blank, blank ++ trimStart zone = zone := List.dropWhile_suffix _
  have htotal : Slices.size blank + (c.utf8Size + (a.utf8Size + (b.utf8Size +
      (Slices.size between + (d.utf8Size + (e.utf8Size + Slices.size r)))))) = 5 := by
    rw [← hsize, ← hblank, htrim]
    simp only [Slices.size_append, Slices.size_cons]
  have hc := c.utf8Size_pos
  have ha' := a.utf8Size_pos
  have hb' := b.utf8Size_pos
  have hd' := d.utf8Size_pos
  have he' := e.utf8Size_pos
  obtain rfl := eq_nil_of_size (s := blank) (by omega)
  obtain rfl := eq_nil_of_size (s := between) (by omega)
  obtain rfl := eq_nil_of_size (s := r) (by omega)
  rw [List.nil_append, htrim] at hblank
  have hplain : c = '+' ∨ c = '-' := by
    rcases signOf_cases hsign with rfl | rfl | rfl
    · exact Or.inl rfl
    · exact Or.inr rfl
    · have hwide : '−'.utf8Size = 3 := by decide
      omega
  have hdigit {x : Char} (hx : x.isDigit = true) : ',' ≠ x := by
    rintro rfl
    cases hx
  have hsign' : ',' ≠ c := by rcases hplain with rfl | rfl <;> decide
  refine ⟨c, a, b, d, e, hblank.symm, hplain, ha, he, ?_, fun s' r' hs' => hread s' r' ?_⟩
  · rw [← hblank]
    simp [hdigit ha, hdigit hb, hdigit hd, hdigit he, hsign']
  · rw [hs', ← hblank]
    rfl

theorem not_isDigit_of_sign {c : Char} (hc : c = '+' ∨ c = '-') : c.isDigit = false := by
  rcases hc with rfl | rfl <;> rfl

theorem not_isWhitespace_of_sign {c : Char} (hc : c = '+' ∨ c = '-') : isWhitespace c = false := by
  rcases hc with rfl | rfl <;> rfl

/-- There is no fraction where a sign follows one more character. -/
theorem fraction_before_sign {c sign : Char} {rest : List Char} {p : Parsed}
    {x : Parsed × List Char} (hsign : sign = '+' ∨ sign = '-')
    (h : Item.fraction.parse p (c :: sign :: rest) = some x) : x = (p, c :: sign :: rest) := by
  rcases eq_or_ne c '.' with rfl | hdot
  · obtain ⟨⟨v, r⟩, hnanos, -⟩ := Option.map_eq_some_iff.1 h
    obtain ⟨-, a, ha, hne, hdigits, -⟩ := readNanos_cases hnanos
    obtain ⟨d, a, rfl⟩ := List.exists_cons_of_ne_nil hne
    have hdigit := hdigits d List.mem_cons_self
    rw [← (List.cons.inj ha).1, not_isDigit_of_sign hsign] at hdigit
    cases hdigit
  · rw [fraction_parse_of_ne (by simpa using hdot)] at h
    exact (Option.some.inj h).symm

/-- An offset behind one more character is all of the rest. -/
theorem readOffset_behind {c sign : Char} {zone tail : List Char} {offset o : ℤ}
    (hsign : sign = '+' ∨ sign = '-')
    (hread : ∀ s' r', trimStart s' = sign :: zone ++ r' → readOffset s' = some (offset, r'))
    (h : readOffset (c :: (sign :: zone ++ tail)) = some (o, [])) : o = offset ∧ tail = [] := by
  cases hblank : isWhitespace c with
  | true =>
    have htrim : trimStart (c :: (sign :: zone ++ tail)) = sign :: zone ++ tail :=
      (List.dropWhile_cons_of_pos hblank).trans (trimStart_cons (not_isWhitespace_of_sign hsign))
    rw [hread _ _ htrim] at h
    cases h
    exact ⟨rfl, rfl⟩
  | false =>
    obtain ⟨c', a, b, between, d, e, htrim, -, ha, -⟩ := readOffset_cases h
    rw [trimStart_cons hblank] at htrim
    obtain ⟨-, hrest⟩ := List.cons.inj htrim
    rw [← (List.cons.inj hrest).1, not_isDigit_of_sign hsign] at ha
    cases ha

/-- White space is cut before the first part of a text and behind a character that is none. -/
theorem trim_parts {head : List Char} {e : Char} (hhead : trimStart head ≠ [])
    (he : isWhitespace e = false) (mid tail : List Char) :
    trim (head ++ (mid ++ e :: tail)) = trimStart head ++ (mid ++ e :: trimEnd tail) := by
  rw [trim_eq, trimStart, List.dropWhile_append, if_neg (by simpa [trimStart] using hhead),
    ← List.append_assoc, trimEnd_append_cons he, List.append_assoc]
  rfl

theorem exists_of_size_one {s : List Char} (h : Slices.size s = 1) : ∃ c, s = [c] := by
  cases s with
  | nil => cases h
  | cons c s =>
    have hpos := c.utf8Size_pos
    rw [Slices.size_cons] at h
    exact ⟨c, by rw [eq_nil_of_size (s := s) (by omega)]⟩

/-- What is read of a text that is cut. -/
theorem parseWithZone_cases {s : List Char} {t : DateTime}
    (h : parseWithZone s = .ok (some t)) :
    ∃ head c zone tail naive offset r, s = head ++ c :: (zone ++ tail) ∧
      Slices.size head = 19 ∧ Slices.size zone = 5 ∧
      parseNaive (wall .space) head = some naive ∧ readOffset zone = some (offset, r) ∧
      DateTime.ofParts? (naive.secs - offset) naive.nanos = some t := by
  obtain ⟨⟨head, rest⟩, hhead, h⟩ := Result.bind_eq_ok.1 h
  obtain ⟨hs, hsize⟩ := eq_append_of_cut hhead
  dsimp only at h
  obtain ⟨⟨one, rest'⟩, hone, h⟩ := Result.bind_eq_ok.1 h
  obtain ⟨hrest, hsize1⟩ := eq_append_of_cut hone
  dsimp only at h
  obtain ⟨⟨zone, tail⟩, hzone, h⟩ := Result.bind_eq_ok.1 h
  obtain ⟨hrest', hsize5⟩ := eq_append_of_cut hzone
  dsimp only at h
  obtain ⟨naive, hnaive, h⟩ := Option.bind_eq_some_iff.1 (Except.ok.inj h)
  obtain ⟨⟨offset, r⟩, hoffset, h⟩ := Option.bind_eq_some_iff.1 h
  dsimp only at h
  split_ifs at h with hrange
  obtain ⟨c, rfl⟩ := exists_of_size_one hsize1
  exact ⟨head, c, zone, tail, naive, offset, r, by rw [hs, hrest, hrest']; rfl, hsize, hsize5,
    hnaive, hoffset, h⟩

/-- A text with an offset behind one more character is read in the same way by both. -/
theorem agrees_of_zone {s : String} {t t' : DateTime} (h : parseTimestamp s = .ok t)
    (hread : parseWithZone s.toList = .ok (some t')) (hcut : ¬CutSeconds s.toList) : t' = t := by
  obtain ⟨head, c, zone, tail, naive, offset, r, hs, hsize, hsize5, hnaive, hoffset, ht'⟩ :=
    parseWithZone_cases hread
  have hc : c.isDigit = false := by
    rw [Bool.eq_false_iff]
    intro hdigit
    exact hcut ⟨head, c, zone, tail, naive, hs, hsize, hnaive, hdigit, hsize5, by rw [hoffset]; rfl⟩
  obtain ⟨sign, a, b, d, e, rfl, hsign, -, he, hcomma, hall⟩ := readOffset_five hsize5 hoffset
  obtain ⟨p, hfields, hp⟩ := parseNaive_eq_some.1 hnaive
  have hseparator : Separator .space := trivial
  -- the text without white space around it
  have hfields' : parseItems (wall .space) {} (trimStart head) = some (p, []) := by
    have htrim := parseItems_wall_trimStart .space [] {} head
    rw [List.append_nil] at htrim
    rw [htrim, hfields]
  obtain ⟨front, hfront, hwritten, hread'⟩ := local_wall (fun w (hw : Stops w) => hw) hseparator {}
    hfields'
  rw [List.append_nil] at hfront
  obtain ⟨tail', htrim⟩ : ∃ tail', trim s.toList = front ++ c :: ([sign, a, b, d, e] ++ tail') := by
    refine ⟨trimEnd tail, ?_⟩
    have hne : trimStart head ≠ [] := by
      rw [← List.append_nil (wall .space)] at hfields
      obtain ⟨x, rest, hx, -⟩ := head_of_wall hfields
      rw [hx]
      exact List.cons_ne_nil x rest
    rw [hs, ← hfront]
    exact trim_parts hne (isWhitespace_of_isDigit he) [c, sign, a, b, d] tail
  have hwall : ∀ c' rest, c' = c ∨ c' = '.' →
      parseItems (wall .space ++ []) {} (front ++ c' :: rest) = some (p, c' :: rest) := by
    intro c' rest hc'
    rw [List.append_nil]
    refine hread' _ (Or.inl fun x hx => ?_)
    cases Option.some.inj hx
    rcases hc' with rfl | rfl
    · exact hc
    · rfl
  -- the offset is the rest of what the event store reads
  have hzone : ∀ c' rest, c' = c ∨ c' = '.' → ∀ sep, Separator sep →
      parseOffset (wall sep ++ [.fraction, .offset])
        (front ++ c' :: ([sign, a, b, d, e] ++ rest)) = some t → rest = [] ∧ t' = t := by
    intro c' rest hc' sep hsep hparse
    obtain ⟨q, hitems, hq⟩ := parseOffset_eq_some.1 hparse
    have hrest := parseItems_unique hseparator hsep (hwall c' _ hc') hitems
    obtain ⟨x, hfraction, hoff⟩ := Option.bind_eq_some_iff.1 hrest
    cases fraction_before_sign hsign hfraction
    obtain ⟨o, ho, -, -, ht⟩ := toUtc_of_offset hp hoff hq
    obtain ⟨rfl, rfl⟩ := readOffset_behind hsign hall ho
    rw [ht'] at ht
    exact ⟨rfl, Option.some.inj ht⟩
  obtain ⟨sep, hsep, hcase⟩ := parse_cases_of_wall h (htrim ▸ hwall c _ (Or.inl rfl))
  have hwritten' : ',' ∉ front := comma_not_mem hwritten
  obtain ⟨c', tail'', hc', hnormalize⟩ := normalize_append (c := c) hwritten' hcomma tail'
  rw [htrim] at hcase
  rcases hcase with ⟨u, hu, hparse⟩ | hparse
  · rcases mem_offsetInputs hu with rfl | rfl | ⟨before, hzulu, rfl⟩
    · rw [hnormalize] at hparse
      exact (hzone c' tail'' hc' sep (separator_of hsep) hparse).2
    · exact (hzone c tail' (Or.inl rfl) sep (separator_of hsep) hparse).2
    · rw [hnormalize] at hzulu
      rcases List.eq_nil_or_concat tail'' with rfl | ⟨init, z, rfl⟩
      · have hlast := congrArg List.getLast? hzulu
        simp only [List.append_nil, List.getLast?_append, List.getLast?_cons_cons,
          List.getLast?_singleton, Option.some_or, Option.some.injEq] at hlast
        rw [hlast] at he
        cases he
      · have hbefore : before = front ++ c' :: ([sign, a, b, d, e] ++ init) := by
          have hassoc : front ++ c' :: ([sign, a, b, d, e] ++ (init ++ [z])) =
              front ++ c' :: ([sign, a, b, d, e] ++ init) ++ [z] := by simp
          rw [List.concat_eq_append, hassoc] at hzulu
          exact (List.append_inj_left' hzulu rfl).symm
        rw [hbefore, List.append_assoc, List.cons_append, List.append_assoc] at hparse
        obtain ⟨hnil, -⟩ := hzone c' _ hc' sep (separator_of hsep) hparse
        exact absurd hnil (List.append_ne_nil_of_right_ne_nil _ (List.cons_ne_nil _ _))
  · rw [hnormalize] at hparse
    obtain ⟨q, hitems, -⟩ := parseNaive_eq_some.1 hparse
    have hrest := parseItems_unique hseparator (separator_of hsep) (hwall c' _ hc') hitems
    obtain ⟨x, hfraction, heq⟩ := Option.bind_eq_some_iff.1 hrest
    cases fraction_before_sign hsign hfraction
    cases heq

/-- A text that a layout of the reports reads whole is read in the same way by both. -/
theorem agrees_of_directly {s : String} {t t' : DateTime} (h : parseTimestamp s = .ok t)
    (hread : readDirectly s.toList = some t') : t' = t := by
  rw [readDirectly, Option.orElse_eq_some, Option.orElse_eq_some] at hread
  rcases hread with hrfc | ⟨-, hnaive | ⟨-, hnaive⟩⟩
  · obtain ⟨⟨reading, offset⟩, hreading, ht'⟩ := Option.bind_eq_some_iff.1 hrfc
    exact agrees_of_rfc3339 h hreading ht'
  · exact agrees_of_naive (Or.inl rfl) h hnaive
  · exact agrees_of_naive (Or.inr rfl) h hnaive

theorem parseTime_agrees {s : String} {t t' : DateTime} (h : parseTimestamp s = .ok t)
    (hread : parseTime s = .ok (some t')) (hcut : ¬CutSeconds s.toList) : t' = t := by
  rw [parseTime_eq] at hread
  by_cases hempty : s.toList = []
  · rw [if_pos hempty] at hread
    cases hread
  · rw [if_neg hempty] at hread
    cases hdirect : readDirectly s.toList with
    | some u =>
      rw [hdirect] at hread
      cases hread
      exact agrees_of_directly h hdirect
    | none =>
      simp only [hdirect] at hread
      split_ifs at hread
      · exact agrees_of_zone h hread hcut
      · cases hread

/-- What the store writes is read by a layout of the reports. -/
theorem parseTime_written {s : String} {t t' : DateTime} (h : parseTimestamp s = .ok t)
    (hread : readDirectly s.toList = some t') : parseTime s = .ok (some t) := by
  have hne : s.toList ≠ [] := by
    intro hnil
    rw [hnil] at hread
    cases hread
  rw [parseTime_eq, if_neg hne, hread, agrees_of_directly h hread]

theorem parseTime_formatIso {t : DateTime} (ht : FourDigitYear t) :
    parseTime (formatIso t) = .ok (some t.trunc) := by
  have hself : DateTime.ofParts? (t.trunc.secs - 0) t.trunc.nanos = some t.trunc := by
    rw [sub_zero]
    exact DateTime.ofParts?_self t.trunc
  have hread : readDirectly (formatIso t).toList = some t.trunc := by
    rw [formatIso_eq, String.toList_ofList, readDirectly, parseRfc3339_wall ht, Option.bind_some]
    exact (Option.orElse_eq_some _ _ _).2 (Or.inl hself)
  exact parseTime_written (parse_formatIso t) hread

theorem parseTime_formatSql (t : DateTime) : parseTime (formatSql t) = .ok (some t.trunc) := by
  have hspace : parseNaive (wall .space) (formatSql t).toList = some t.trunc := by
    have hwall := parseItems_wall separates_space t [] []
    rw [List.append_nil, List.append_nil] at hwall
    rw [formatSql, String.toList_ofList]
    exact parseNaive_eq_some.2 ⟨_, hwall, toNaive_ofWall t⟩
  obtain ⟨t', hread⟩ : ∃ t', readDirectly (formatSql t).toList = some t' := by
    rw [← Option.isSome_iff_exists, readDirectly, hspace]
    simp
  exact parseTime_written (parse_formatSql t) hread

/-- Where both readers find an instant it is the same one, unless the reports cut the seconds, and
both read what the event store writes. -/
theorem readers_agree :
    (∀ (s : String) (t t' : DateTime), parseTimestamp s = .ok t → parseTime s = .ok (some t') →
      ¬CutSeconds s.toList → t' = t) ∧
    ∀ t : DateTime, FourDigitYear t → ∀ s ∈ [formatIso t, formatSql t],
      parseTimestamp s = .ok t.trunc ∧ parseTime s = .ok (some t.trunc) := by
  refine ⟨fun s t t' => parseTime_agrees, fun t ht s hs => ?_⟩
  rcases List.mem_pair.1 hs with rfl | rfl
  · exact ⟨parse_formatIso t, parseTime_formatIso ht⟩
  · exact ⟨parse_formatSql t, parseTime_formatSql t⟩

/-- `2026-08-31 12:34:56` two hours east of UTC. -/
def zoned : DateTime := .ofSecs 1788172496 (by decide)

theorem cut_zoned : cut 19 "2026-08-31 12:34:56 +0200".toList =
    .ok ("2026-08-31 12:34:56".toList, " +0200".toList) := by decide

theorem not_cutSeconds_zoned : ¬CutSeconds "2026-08-31 12:34:56 +0200".toList := by
  rintro ⟨head, c, zone, tail, t, hs, hsize, -, hc, -⟩
  have hcut := cut_zoned
  rw [hs, ← hsize, cut_append] at hcut
  have hrest := (Prod.mk.inj (Except.ok.inj hcut)).2
  have hblank : c = ' ' := (List.cons.inj hrest).1
  rw [hblank] at hc
  cases hc

theorem readers_agree_zoned :
    parseTimestamp "2026-08-31 12:34:56 +0200" = .ok zoned ∧
      (∃ t, parseTime "2026-08-31 12:34:56 +0200" = .ok (some t) ∧ t = zoned) ∧
      parseTime (formatIso zoned) = .ok (some zoned.trunc) := by
  have hstore : parseTimestamp "2026-08-31 12:34:56 +0200" = .ok zoned := by decide
  have hdirect : readDirectly "2026-08-31 12:34:56 +0200".toList = none := by decide
  have hcut1 : cut 1 " +0200".toList = .ok ([' '], "+0200".toList) := by decide
  have hcut5 : cut 5 "+0200".toList = .ok ("+0200".toList, []) := by decide
  have hnaive : parseNaive (wall .space) "2026-08-31 12:34:56".toList =
      some (.ofSecs 1788179696 (by decide)) := by decide
  have hoffset : readOffset "+0200".toList = some (7200, []) := by decide
  have hzone : parseWithZone "2026-08-31 12:34:56 +0200".toList = .ok (some zoned) :=
    Result.bind_eq_ok.2 ⟨_, cut_zoned, Result.bind_eq_ok.2 ⟨_, hcut1, Result.bind_eq_ok.2
      ⟨_, hcut5, congrArg Except.ok (Option.bind_eq_some_iff.2 ⟨_, hnaive,
        Option.bind_eq_some_iff.2 ⟨_, hoffset, by decide⟩⟩)⟩⟩⟩
  have hreport : parseTime "2026-08-31 12:34:56 +0200" = .ok (some zoned) := by
    rw [parseTime_eq, if_neg (by decide), hdirect]
    exact (if_pos (by decide)).trans hzone
  exact ⟨hstore, ⟨zoned, hreport, readers_agree.1 _ _ _ hstore hreport not_cutSeconds_zoned⟩,
    (readers_agree.2 zoned (by decide) _ (List.mem_cons_self ..)).2⟩

/-- Half a second after `2026-08-31 12:34:56`. -/
def halfSecond : DateTime := ⟨1788179696, 500000000, by decide, by decide, by decide, by decide⟩

/-- A fraction without an offset has no layout in the reports. -/
theorem not_readers_agree :
    ¬∀ (s : String) (t : DateTime), parseTimestamp s = .ok t → parseTime s = .ok (some t) := by
  intro h
  have hread : parseTime "2026-08-31T12:34:56.5" = .ok none := by decide
  have hsome := h "2026-08-31T12:34:56.5" halfSecond (by decide)
  rw [hread] at hsome
  cases hsome

end EraseMe.Reporting
