import EraseMe.Library.ChronoText

/-!
# How layouts read a text

A directive for a number takes a first part of the text, and takes the same part before another
rest that does not go on with a digit (`Local`); so does a layout of such directives.  Wall-clock
layouts with different separators read different texts (`wall_unique`), and RFC 3339 is a strict
form of one of them (`parseRfc3339_cases`).
-/

namespace Chrono

open Calendar Decimal Text

/-! ### Numbers -/

/-- The greedy reader takes the digits `a` of a text and leaves the rest `r`; how many digits it may
take does not matter where it stops at a character. -/
structure Taken (bound max acc v : ℕ) (a r : List Char) : Prop where
  digits : ∀ c ∈ a, c.isDigit = true
  length_le : a.length ≤ max
  stops : a.length = max ∨ Stops r
  read : ∀ max' w, a.length = max' ∨ a.length ≤ max' ∧ Stops w →
    takeNumber bound max' (a ++ w) acc = some (v, w)

theorem Taken.nil {bound max acc : ℕ} {r : List Char} (h : max = 0 ∨ Stops r) :
    Taken bound max acc acc [] r where
  digits := by simp
  length_le := Nat.zero_le _
  stops := h.imp_left Eq.symm
  read max' w hw := by
    rcases hw with rfl | ⟨-, hw⟩
    · rfl
    · exact takeNumber_stops hw

theorem Taken.cons {bound max acc v : ℕ} {c : Char} {a r : List Char} (hc : c.isDigit = true)
    (hle : acc * 10 + value c ≤ bound) (h : Taken bound max (acc * 10 + value c) v a r) :
    Taken bound (max + 1) acc v (c :: a) r where
  digits := List.forall_mem_cons.2 ⟨hc, h.digits⟩
  length_le := Nat.succ_le_succ h.length_le
  stops := h.stops.imp_left (congrArg Nat.succ)
  read max' w hw := by
    obtain ⟨max', rfl⟩ : ∃ m, max' = m + 1 := ⟨max' - 1, by
      rw [List.length_cons] at hw
      omega⟩
    rw [List.cons_append, takeNumber, if_pos hc, if_pos hle]
    refine h.read max' w ?_
    rw [List.length_cons] at hw
    exact hw.imp (by omega) (And.imp_left (by omega))

theorem exists_taken {bound max acc v : ℕ} {s r : List Char}
    (h : takeNumber bound max s acc = some (v, r)) :
    ∃ a, s = a ++ r ∧ Taken bound max acc v a r := by
  induction s generalizing max acc with
  | nil =>
    have hstops : Stops [] := by simp [Stops]
    rw [takeNumber_stops hstops] at h
    cases h
    exact ⟨[], rfl, .nil (Or.inr hstops)⟩
  | cons c s ih =>
    cases max with
    | zero =>
      cases h
      exact ⟨[], rfl, .nil (Or.inl rfl)⟩
    | succ max =>
      rw [takeNumber] at h
      split_ifs at h with hc hle
      · obtain ⟨a, rfl, ha⟩ := ih h
        exact ⟨c :: a, rfl, ha.cons hc hle⟩
      · cases h
        exact ⟨[], rfl, .nil (Or.inr (by simpa [Stops] using hc))⟩

/-- A number starts with a digit; how many digits it may have does not matter where it stops at a
character. -/
theorem number_cases {bound max v : ℕ} {s r : List Char} (hmax : 0 < max)
    (h : number bound max s = some (v, r)) :
    ∃ d a, s = d :: (a ++ r) ∧ d.isDigit = true ∧ (∀ c ∈ a, c.isDigit = true) ∧
      a.length + 1 ≤ max ∧ (a.length + 1 = max ∨ Stops r) ∧
      ∀ max' w, a.length + 1 = max' ∨ a.length + 1 ≤ max' ∧ Stops w →
        number bound max' (d :: (a ++ w)) = some (v, w) := by
  cases s with
  | nil => cases h
  | cons d s =>
    rw [number] at h
    split_ifs at h with hd
    obtain ⟨a, hs, ha⟩ := exists_taken h
    cases a with
    | nil =>
      rcases ha.stops with hlen | hstops
      · exact absurd hlen hmax.ne
      · rw [List.nil_append] at hs
        have hfalse := hstops d (by rw [← hs]; rfl)
        rw [hd] at hfalse
        cases hfalse
    | cons d' a =>
      rw [List.cons_append, List.cons.injEq] at hs
      obtain ⟨rfl, rfl⟩ := hs
      refine ⟨d, a, rfl, hd, fun c hc => ha.digits c (List.mem_cons_of_mem d hc), ha.length_le,
        ha.stops, fun max' w hw => ?_⟩
      rw [number, if_pos hd]
      exact ha.read max' w hw

/-! ### Local readers -/

/-- The characters of a wall-clock text. -/
def Written (c : Char) : Prop :=
  c.isDigit = true ∨ isWhitespace c = true ∨ c ∈ ['+', '-', ':', '.', 'T', 't']

/-- A reader takes a first part of a text, and takes it before another rest as well: one that is
`ok`, or starts as the first rest does. -/
def Local {α : Type} (ok : List Char → Prop) (read : List Char → Option (α × List Char)) : Prop :=
  ∀ ⦃s v r⦄, read s = some (v, r) → ∃ a, s = a ++ r ∧ (∀ c ∈ a, Written c) ∧
    ∀ w, ok w ∨ w.head? = r.head? → read (a ++ w) = some (v, w)

section Local

variable {α β : Type} {ok : List Char → Prop} {read : List Char → Option (α × List Char)}

theorem Local.map (h : Local ok read) (f : α → β) :
    Local ok fun s => (read s).map fun (v, s) => (f v, s) := by
  intro s v r hread
  obtain ⟨⟨v', r'⟩, hv, heq⟩ := Option.map_eq_some_iff.1 hread
  cases heq
  obtain ⟨a, rfl, ha, hw⟩ := h hv
  refine ⟨a, rfl, ha, fun w hok => ?_⟩
  show (read (a ++ w)).map _ = _
  rw [hw w hok]
  rfl

theorem Local.bind (h : Local ok read) {next : α → List Char → Option (β × List Char)}
    (hnext : ∀ v, Local ok (next v)) : Local ok fun s => (read s).bind fun (v, s) => next v s := by
  intro s u r hread
  obtain ⟨⟨v, r'⟩, hv, hu⟩ := Option.bind_eq_some_iff.1 hread
  obtain ⟨a, rfl, ha, hw⟩ := h hv
  obtain ⟨b, rfl, hb, hw'⟩ := hnext v hu
  refine ⟨a ++ b, (List.append_assoc a b r).symm, fun c hc => ?_, fun w hok => ?_⟩
  · exact (List.mem_append.1 hc).elim (ha c) (hb c)
  · -- the second reader takes the same part, so the first one stops at the same character
    have hfirst : read (a ++ (b ++ w)) = some (v, b ++ w) := by
      refine hw (b ++ w) ?_
      cases b with
      | nil => exact hok
      | cons c b => exact Or.inr rfl
    show (read (a ++ b ++ w)).bind _ = _
    rw [List.append_assoc, hfirst]
    exact hw' w hok

/-- A local reader of texts that start with another character than white space. -/
def LocalStart (ok : List Char → Prop) (read : List Char → Option (α × List Char)) : Prop :=
  ∀ ⦃s v r⦄, read s = some (v, r) → ∃ d a, s = d :: (a ++ r) ∧ isWhitespace d = false ∧
    (∀ c ∈ d :: a, Written c) ∧ ∀ w, ok w ∨ w.head? = r.head? → read (d :: (a ++ w)) = some (v, w)

/-- Such a reader may skip white space first. -/
theorem LocalStart.trimStart (h : LocalStart ok read) : Local ok fun s => read (trimStart s) := by
  intro s v r hread
  obtain ⟨d, a, hs, hd, ha, hw⟩ := h hread
  have hblank : ∀ c ∈ s.takeWhile isWhitespace, isWhitespace c = true :=
    fun c hc => List.mem_takeWhile_imp hc
  refine ⟨s.takeWhile isWhitespace ++ d :: a, ?_, fun c hc => ?_, fun w hok => ?_⟩
  · rw [List.append_assoc, List.cons_append, ← hs]
    exact List.takeWhile_append_dropWhile.symm
  · rcases List.mem_append.1 hc with hc | hc
    · exact Or.inr (Or.inl (hblank c hc))
    · exact ha c hc
  · show read (Text.trimStart (s.takeWhile isWhitespace ++ d :: a ++ w)) = _
    rw [List.append_assoc, trimStart_append hblank, List.cons_append, trimStart_cons hd]
    exact hw w hok

/-- Such a reader may refuse some values and change the others. -/
theorem LocalStart.guard (h : LocalStart ok read) (p : α → Prop) [DecidablePred p] (f : α → β) :
    LocalStart ok fun s => (read s).bind fun (v, s) => if p v then some (f v, s) else none := by
  intro s u r hread
  obtain ⟨⟨v, r'⟩, hv, hu⟩ := Option.bind_eq_some_iff.1 hread
  obtain ⟨hp, heq⟩ : p v ∧ (f v, r') = (u, r) := by simpa using hu
  cases heq
  obtain ⟨d, a, rfl, hd, ha, hw⟩ := h hv
  refine ⟨d, a, rfl, hd, ha, fun w hok => ?_⟩
  show (read (d :: (a ++ w))).bind _ = _
  rw [hw w hok]
  exact if_pos hp

end Local

/-! ### Local layouts -/

/-- The year after a sign. -/
def signedYear (sign : ℤ) (s : List Char) : Option (ℤ × List Char) :=
  (number i64Max s.length s).bind fun (v, s) => if v ≤ i32Max then some (sign * v, s) else none

/-- A year without white space before it. -/
def bareYear : List Char → Option (ℤ × List Char)
  | '-' :: s => signedYear (-1) s
  | '+' :: s => signedYear 1 s
  | s => (number i64Max 4 s).map fun (v, s) => ((v : ℤ), s)

theorem readYear_eq (s : List Char) : readYear s = bareYear (trimStart s) := rfl

theorem bareYear_digit {d : Char} (hd : d.isDigit = true) (s : List Char) :
    bareYear (d :: s) = (number i64Max 4 (d :: s)).map fun (v, s) => ((v : ℤ), s) := by
  unfold bareYear
  split
  · next heq =>
    rw [(List.cons.inj heq).1] at hd
    cases hd
  · next heq =>
    rw [(List.cons.inj heq).1] at hd
    cases hd
  · rfl

/-- A year starts with a digit or with a sign. -/
theorem bareYear_cases {s r : List Char} {v : ℤ} (h : bareYear s = some (v, r)) :
    (∃ sign c t, (c = '+' ∨ c = '-') ∧ s = c :: t ∧ signedYear sign t = some (v, r) ∧
      ∀ t, bareYear (c :: t) = signedYear sign t) ∨
    ∃ d t, d.isDigit = true ∧ s = d :: t := by
  unfold bareYear at h
  split at h
  · next t => exact Or.inl ⟨-1, '-', t, Or.inr rfl, rfl, h, fun _ => rfl⟩
  · next t => exact Or.inl ⟨1, '+', t, Or.inl rfl, rfl, h, fun _ => rfl⟩
  · obtain ⟨⟨v', r'⟩, hnumber, -⟩ := Option.map_eq_some_iff.1 h
    obtain ⟨d, a, rfl, hd, -⟩ := number_cases (by norm_num) hnumber
    exact Or.inr ⟨d, _, hd, rfl⟩

section Layouts

variable {ok : List Char → Prop} (hok : ∀ w, ok w → Stops w)
include hok

/-- A number that stopped at a rest stops where it may. -/
theorem stops_of_ok {a w r : List Char} {max : ℕ} (hlen : a.length + 1 ≤ max)
    (hstops : a.length + 1 = max ∨ Stops r) (hw : ok w ∨ w.head? = r.head?) :
    a.length + 1 = max ∨ a.length + 1 ≤ max ∧ Stops w := by
  rcases hw with hw | hw
  · exact Or.inr ⟨hlen, hok w hw⟩
  · refine hstops.imp_right fun hr => ⟨hlen, ?_⟩
    rw [Stops, hw]
    exact hr

theorem localStart_number (bound : ℕ) {max : ℕ} (hmax : 0 < max) :
    LocalStart ok (number bound max) := by
  intro s v r h
  obtain ⟨d, a, rfl, hd, ha, hlen, hstops, hread⟩ := number_cases hmax h
  refine ⟨d, a, rfl, isWhitespace_of_isDigit hd, fun c hc => Or.inl ?_, fun w hw => ?_⟩
  · rcases List.mem_cons.1 hc with rfl | hc
    · exact hd
    · exact ha c hc
  · exact hread max w (stops_of_ok hok hlen hstops hw)

theorem local_twoDigits (lo hi : ℕ) : Local ok (twoDigits lo hi) :=
  ((localStart_number hok i64Max (by norm_num)).guard (fun v => lo ≤ v ∧ v ≤ hi) id).trimStart

/-- A number of any length. -/
theorem localStart_numeral (bound : ℕ) : LocalStart ok fun s => number bound s.length s := by
  intro s v r h
  cases s with
  | nil => cases h
  | cons c s =>
    obtain ⟨d, a, hs, hd, ha, hlen, hstops, hread⟩ := number_cases (Nat.succ_pos _) h
    obtain ⟨rfl, rfl⟩ := List.cons.inj hs
    -- it stops at the end of the text, if not at a character
    have hstop : Stops r := by
      rcases hstops with hall | hstop
      · have hnil : r = [] := by
          rw [← List.length_eq_zero_iff]
          rw [List.length_append] at hall
          omega
        rw [hnil]
        simp [Stops]
      · exact hstop
    refine ⟨c, a, rfl, isWhitespace_of_isDigit hd, fun c' hc => Or.inl ?_, fun w hw => ?_⟩
    · rcases List.mem_cons.1 hc with rfl | hc
      · exact hd
      · exact ha c' hc
    · refine hread _ w (Or.inr ⟨by simp, ?_⟩)
      rcases hw with hw | hw
      · exact hok w hw
      · rw [Stops, hw]
        exact hstop

theorem localStart_bareYear : LocalStart ok bareYear := by
  have hsigned (sign : ℤ) : LocalStart ok (signedYear sign) :=
    (localStart_numeral hok i64Max).guard (fun v => v ≤ i32Max) fun v => sign * v
  intro s v r h
  rcases bareYear_cases h with ⟨sign, c, t, hc, rfl, hyear, hsign⟩ | ⟨d, t, hd, rfl⟩
  · obtain ⟨d, a, rfl, -, ha, hread⟩ := hsigned sign hyear
    have hmark : isWhitespace c = false ∧ Written c := by
      rcases hc with rfl | rfl
      · exact ⟨by decide, Or.inr (Or.inr (by decide))⟩
      · exact ⟨by decide, Or.inr (Or.inr (by decide))⟩
    refine ⟨c, d :: a, rfl, hmark.1, List.forall_mem_cons.2 ⟨hmark.2, ha⟩, fun w hw => ?_⟩
    rw [hsign]
    exact hread w hw
  · rw [bareYear_digit hd] at h
    obtain ⟨⟨v', r'⟩, hnumber, heq⟩ := Option.map_eq_some_iff.1 h
    cases heq
    obtain ⟨d', a, hs, hd', ha, hread⟩ := localStart_number hok i64Max (by norm_num) hnumber
    obtain ⟨rfl, rfl⟩ := List.cons.inj hs
    refine ⟨d, a, rfl, hd', ha, fun w hw => ?_⟩
    rw [bareYear_digit hd, hread w hw]
    rfl

/-- The directives that read a number or one character. -/
def Item.Plain : Item → Prop
  | .literal c => Written c
  | .year | .month | .day | .hour | .minute | .second => True
  | _ => False

theorem local_item {item : Item} (h : item.Plain) (p : Parsed) :
    Local ok fun s => item.parse p s := by
  cases item with
  | literal c =>
    intro s v r hread
    cases s with
    | nil => cases hread
    | cons d s =>
      obtain ⟨rfl, rfl, rfl⟩ : c = d ∧ p = v ∧ s = r := by simpa [Item.parse] using hread
      exact ⟨[c], rfl, List.forall_mem_singleton.2 h, fun w _ => literal_parse_cons c p w⟩
  | year => exact (localStart_bareYear hok).trimStart.map fun v => { p with year := some v }
  | month => exact (local_twoDigits hok 1 12).map fun v => { p with month := some v }
  | day => exact (local_twoDigits hok 1 31).map fun v => { p with day := some v }
  | hour => exact (local_twoDigits hok 0 23).map fun v => { p with hour := some v }
  | minute => exact (local_twoDigits hok 0 59).map fun v => { p with minute := some v }
  | second => exact (local_twoDigits hok 0 60).map fun v => { p with second := some v }
  | space => cases h
  | yearMod100 => cases h
  | monthName => cases h
  | fraction => cases h
  | offset => cases h

theorem local_parseItems {layout : List Item} (h : ∀ item ∈ layout, item.Plain) (p : Parsed) :
    Local ok fun s => parseItems layout p s := by
  induction layout generalizing p with
  | nil =>
    intro s v r hread
    cases hread
    exact ⟨[], rfl, by simp, fun w _ => rfl⟩
  | cons item layout ih =>
    refine (local_item hok (h item List.mem_cons_self) p).bind fun q => ?_
    exact ih (fun item hitem => h item (List.mem_cons_of_mem _ hitem)) q

end Layouts

/-! ### Fractions -/

theorem fraction_parse_of_ne {s : List Char} (h : s.head? ≠ some '.') (p : Parsed) :
    Item.fraction.parse p s = some (p, s) := by
  cases s with
  | nil => rfl
  | cons c s =>
    rw [Item.parse]
    rintro s' heq
    rw [heq] at h
    exact h rfl

theorem stops_dropWhile (s : List Char) : Stops (s.dropWhile Char.isDigit) := by
  intro c hc
  have hnot := List.head?_dropWhile_not Char.isDigit s
  rw [hc] at hnot
  simpa using hnot

/-- The digits of a fraction end where no digit follows. -/
theorem readNanos_cases {s r : List Char} {v : ℕ} (h : readNanos s = some (v, r)) :
    Stops r ∧ ∃ a, s = a ++ r ∧ a ≠ [] ∧ (∀ c ∈ a, c.isDigit = true) ∧
      ∀ w, Stops w → readNanos (a ++ w) = some (v, w) := by
  obtain ⟨⟨n, r'⟩, hnumber, heq⟩ := Option.map_eq_some_iff.1 h
  obtain ⟨d, a, rfl, hd, ha, hlen, hstops, hread⟩ := number_cases (by norm_num) hnumber
  cases heq
  have hdigits : ∀ c ∈ r'.takeWhile Char.isDigit, c.isDigit = true :=
    fun c hc => List.mem_takeWhile_imp hc
  refine ⟨stops_dropWhile r', d :: (a ++ r'.takeWhile Char.isDigit), ?_, by simp, ?_, ?_⟩
  · rw [List.cons_append, List.append_assoc, List.takeWhile_append_dropWhile]
  · refine List.forall_mem_cons.2 ⟨hd, fun c hc => ?_⟩
    exact (List.mem_append.1 hc).elim (ha c) (hdigits c)
  · intro w hw
    have hmore : number i64Max 9 (d :: (a ++ (r'.takeWhile Char.isDigit ++ w))) =
        some (n, r'.takeWhile Char.isDigit ++ w) := by
      refine hread 9 _ (hstops.imp_right fun hstop => ⟨hlen, ?_⟩)
      -- a number of fewer than nine digits has no digit behind it
      have hnil : r'.takeWhile Char.isDigit = [] := by
        cases r' with
        | nil => rfl
        | cons c r' => exact List.takeWhile_cons_of_neg (by simp [hstop c rfl])
      rw [hnil]
      exact hw
    have hdrop : (r'.takeWhile Char.isDigit ++ w).dropWhile Char.isDigit = w := by
      rw [List.dropWhile_append_of_pos hdigits]
      cases w with
      | nil => rfl
      | cons c w => exact List.dropWhile_cons_of_neg (by simp [hw c rfl])
    have htaken (t : List Char) : (d :: (a ++ t)).length - t.length = a.length + 1 := by
      rw [List.length_cons, List.length_append]
      omega
    rw [readNanos, List.cons_append, List.append_assoc, hmore, Option.map_some]
    show some (_, (r'.takeWhile Char.isDigit ++ w).dropWhile Char.isDigit) = _
    rw [hdrop, htaken, htaken]

theorem local_fraction {ok : List Char → Prop}
    (hok : ∀ w, ok w → Stops w ∧ w.head? ≠ some '.') (p : Parsed) :
    Local ok fun s => Item.fraction.parse p s := by
  intro s q r h
  by_cases hdot : s.head? = some '.'
  · obtain ⟨t, rfl⟩ := List.head?_eq_some_iff.1 hdot
    obtain ⟨⟨v, r'⟩, hnanos, heq⟩ := Option.map_eq_some_iff.1 h
    cases heq
    obtain ⟨hstop, a, rfl, -, ha, hread⟩ := readNanos_cases hnanos
    refine ⟨'.' :: a, rfl, List.forall_mem_cons.2 ⟨Or.inr (Or.inr (by decide)), fun c hc =>
      Or.inl (ha c hc)⟩, fun w hw => ?_⟩
    have hstop' : Stops w := by
      rcases hw with hw | hw
      · exact (hok w hw).1
      · rw [Stops, hw]
        exact hstop
    show (readNanos (a ++ w)).map _ = _
    rw [hread w hstop']
    rfl
  · have hself := (fraction_parse_of_ne hdot p).symm.trans h
    cases hself
    refine ⟨[], rfl, by simp, fun w hw => fraction_parse_of_ne (s := w) ?_ p⟩
    rcases hw with hw | hw
    · exact (hok w hw).2
    · rwa [hw]

/-! ### Wall-clock layouts -/

theorem parseItems_append (a b : List Item) (p : Parsed) (s : List Char) :
    parseItems (a ++ b) p s = (parseItems a p s).bind fun (q, r) => parseItems b q r := by
  induction a generalizing p s with
  | nil => rfl
  | cons item a ih =>
    rw [List.cons_append, parseItems, parseItems]
    cases item.parse p s with
    | none => rfl
    | some read => exact ih read.1 read.2

theorem parseItems_append_of {a : List Item} {p q : Parsed} {s r : List Char}
    (h : parseItems a p s = some (q, r)) (b : List Item) :
    parseItems (a ++ b) p s = parseItems b q r := by
  rw [parseItems_append, h]
  rfl

/-- `%Y-%m-%d` -/
def dateItems : List Item := [.year, .literal '-', .month, .literal '-', .day]

/-- `%H:%M:` -/
def minuteItems : List Item := [.hour, .literal ':', .minute, .literal ':']

/-- `%H:%M:%S` -/
def timeItems : List Item := minuteItems ++ [.second]

theorem wall_eq (sep : Item) : wall sep = dateItems ++ sep :: timeItems := rfl

/-- What can separate a date from a time: white space, or a character that is not read as a part of
a number. -/
def Separator : Item → Prop
  | .space => True
  | .literal c => Written c ∧ isWhitespace c = false ∧ c.isDigit = false
  | _ => False

/-- The white space between a date and a time could as well be skipped by the hour. -/
theorem parseItems_wall_space (p : Parsed) (s : List Char) :
    parseItems (wall .space) p s = parseItems (dateItems ++ timeItems) p s := by
  rw [wall_eq, parseItems_append, parseItems_append]
  congr 1
  funext ⟨q, r⟩
  have htwice : trimStart (trimStart r) = trimStart r := List.dropWhile_idempotent _ _
  show parseItems timeItems q (trimStart r) = parseItems timeItems q r
  have hhour : Item.hour.parse q (trimStart r) = Item.hour.parse q r := by
    rw [Item.parse, Item.parse, twoDigits, twoDigits, htwice]
  rw [timeItems, minuteItems, List.cons_append, parseItems, parseItems, hhour]

theorem plain_dateItems : ∀ item ∈ dateItems, item.Plain := by
  have hdash : Written '-' := Or.inr (Or.inr (by decide))
  intro item hitem
  simp only [dateItems, List.mem_cons, List.not_mem_nil, or_false] at hitem
  rcases hitem with rfl | rfl | rfl | rfl | rfl
  · trivial
  · exact hdash
  · trivial
  · exact hdash
  · trivial

theorem plain_minuteItems : ∀ item ∈ minuteItems, item.Plain := by
  have hcolon : Written ':' := Or.inr (Or.inr (by decide))
  intro item hitem
  simp only [minuteItems, List.mem_cons, List.not_mem_nil, or_false] at hitem
  rcases hitem with rfl | rfl | rfl | rfl
  · trivial
  · exact hcolon
  · trivial
  · exact hcolon

/-- Directives that read numbers and characters, the last of them the second. -/
theorem exists_plain {sep : Item} (hsep : Separator sep) :
    ∃ layout : List Item, (∀ item ∈ layout, item.Plain) ∧
      ∀ p s, parseItems (wall sep) p s = parseItems (layout ++ [.second]) p s := by
  cases sep with
  | space =>
    refine ⟨dateItems ++ minuteItems, fun item hitem => ?_, parseItems_wall_space⟩
    exact (List.mem_append.1 hitem).elim (plain_dateItems item) (plain_minuteItems item)
  | literal c =>
    refine ⟨dateItems ++ .literal c :: minuteItems, fun item hitem => ?_, fun p s => rfl⟩
    rcases List.mem_append.1 hitem with hitem | hitem
    · exact plain_dateItems item hitem
    · rcases List.mem_cons.1 hitem with rfl | hitem
      · exact hsep.1
      · exact plain_minuteItems item hitem
  | _ => cases hsep

theorem local_wall {ok : List Char → Prop} (hok : ∀ w, ok w → Stops w) {sep : Item}
    (hsep : Separator sep) (p : Parsed) : Local ok fun s => parseItems (wall sep) p s := by
  obtain ⟨layout, hplain, heq⟩ := exists_plain hsep
  simp only [heq]
  refine local_parseItems hok (fun item hitem => ?_) p
  rcases List.mem_append.1 hitem with hitem | hitem
  · exact hplain item hitem
  · rw [List.mem_singleton.1 hitem]
    trivial

theorem local_wall_fraction {ok : List Char → Prop}
    (hok : ∀ w, ok w → Stops w ∧ w.head? ≠ some '.') {sep : Item} (hsep : Separator sep)
    (p : Parsed) : Local ok fun s => parseItems (wall sep ++ [.fraction]) p s := by
  have hbind : (fun s => parseItems (wall sep ++ [.fraction]) p s) = fun s =>
      (parseItems (wall sep) p s).bind fun (q, r) => Item.fraction.parse q r := by
    funext s
    rw [parseItems_append]
    congr 1
    funext ⟨q, r⟩
    exact Option.bind_fun_some (Item.fraction.parse q r)
  rw [hbind]
  exact (local_wall (fun w hw => (hok w hw).1) hsep p).bind (local_fraction hok)

/-- The layout ends with a digit. -/
theorem last_of_wall {sep : Item} (hsep : Separator sep) {p q : Parsed} {s r : List Char}
    (h : parseItems (wall sep) p s = some (q, r)) : ∃ a d, s = a ++ d :: r ∧ d.isDigit = true := by
  obtain ⟨layout, hplain, heq⟩ := exists_plain hsep
  rw [heq, parseItems_append] at h
  obtain ⟨⟨q', rest⟩, hfirst, hlast⟩ := Option.bind_eq_some_iff.1 h
  obtain ⟨a, rfl, -⟩ := local_parseItems (fun w (hw : Stops w) => hw) hplain p hfirst
  obtain ⟨⟨q'', r'⟩, hsecond, heq'⟩ := Option.bind_eq_some_iff.1 hlast
  cases heq'
  obtain ⟨⟨v, r'⟩, htwo, heq'⟩ := Option.map_eq_some_iff.1 hsecond
  cases heq'
  obtain ⟨⟨v', r'⟩, hnumber, hrange⟩ := Option.bind_eq_some_iff.1 htwo
  obtain ⟨-, heq'⟩ : (0 ≤ v' ∧ v' ≤ 60) ∧ (v', r') = (v, r) := by simpa using hrange
  cases heq'
  obtain ⟨d, b, hs, hd, hb, -⟩ := number_cases (by norm_num) hnumber
  obtain ⟨blank, hblank⟩ : ∃ blank, rest = blank ++ d :: (b ++ r) :=
    ⟨rest.takeWhile isWhitespace, by rw [← hs]; exact List.takeWhile_append_dropWhile.symm⟩
  obtain ⟨front, last, hfront⟩ : ∃ front last, d :: b = front ++ [last] :=
    ⟨(d :: b).dropLast, (d :: b).getLast (by simp), (List.dropLast_append_getLast _).symm⟩
  refine ⟨a ++ blank ++ front, last, ?_, ?_⟩
  · rw [hblank, ← List.cons_append, hfront]
    simp
  · have hmem : last ∈ d :: b := by
      rw [hfront]
      simp
    rcases List.mem_cons.1 hmem with rfl | hmem
    · exact hd
    · exact hb last hmem

/-- The layout starts with a digit or a sign, behind white space. -/
theorem head_of_wall {sep : Item} {layout : List Item} {p q : Parsed} {s r : List Char}
    (h : parseItems (wall sep ++ layout) p s = some (q, r)) :
    ∃ c t, trimStart s = c :: t ∧ (c.isDigit = true ∨ c = '+' ∨ c = '-') := by
  obtain ⟨⟨q', r'⟩, hyear, -⟩ := Option.bind_eq_some_iff.1 h
  obtain ⟨⟨v, r''⟩, hread, -⟩ := Option.map_eq_some_iff.1 hyear
  rw [readYear_eq] at hread
  rcases bareYear_cases hread with ⟨-, c, t, hc, hs, -⟩ | ⟨d, t, hd, hs⟩
  · exact ⟨c, t, hs, Or.inr hc⟩
  · exact ⟨d, t, hs, Or.inl hd⟩

/-- White space before the year is skipped. -/
theorem parseItems_wall_trimStart (sep : Item) (layout : List Item) (p : Parsed) (s : List Char) :
    parseItems (wall sep ++ layout) p (trimStart s) = parseItems (wall sep ++ layout) p s := by
  have htwice : trimStart (trimStart s) = trimStart s := List.dropWhile_idempotent _ _
  have hyear : Item.year.parse p (trimStart s) = Item.year.parse p s := by
    rw [Item.parse, Item.parse, readYear_eq, readYear_eq, htwice]
  rw [wall_eq, dateItems, List.append_assoc, List.cons_append, parseItems, parseItems, hyear]

/-- The separator that a layout finds behind the date. -/
theorem separator_cases {sep : Item} (hsep : Separator sep) {layout : List Item} {p q : Parsed}
    {s r : List Char} (h : parseItems (wall sep ++ layout) p s = some (q, r)) :
    ∃ date rest d t, parseItems dateItems p s = some (date, rest) ∧ trimStart rest = d :: t ∧
      (sep = .literal d ∧ d.isDigit = false ∨ sep = .space ∧ d.isDigit = true) := by
  rw [wall_eq, List.append_assoc, parseItems_append] at h
  obtain ⟨⟨date, rest⟩, hdate, hrest⟩ := Option.bind_eq_some_iff.1 h
  cases sep with
  | space =>
    obtain ⟨⟨time, rest'⟩, hhour, -⟩ := Option.bind_eq_some_iff.1
      (show parseItems (timeItems ++ layout) date (trimStart rest) = some (q, r) from hrest)
    obtain ⟨⟨v, r'⟩, htwo, -⟩ := Option.map_eq_some_iff.1 hhour
    obtain ⟨⟨v', r''⟩, hnumber, -⟩ := Option.bind_eq_some_iff.1 htwo
    obtain ⟨d, a, hs, hd, -⟩ := number_cases (by norm_num) hnumber
    rw [show trimStart (trimStart rest) = trimStart rest from List.dropWhile_idempotent _ _] at hs
    exact ⟨date, rest, d, _, hdate, hs, Or.inr ⟨rfl, hd⟩⟩
  | literal c =>
    cases rest with
    | nil => cases hrest
    | cons d t =>
      by_cases hd : c = d
      · subst hd
        exact ⟨date, c :: t, c, t, hdate, trimStart_cons hsep.2.1, Or.inl ⟨rfl, hsep.2.2⟩⟩
      · have hread : (Item.literal c).parse date (d :: t) = none := literal_parse_cons_ne hd date t
        obtain ⟨x, hx, -⟩ := Option.bind_eq_some_iff.1 hrest
        rw [hread] at hx
        cases hx
  | _ => cases hsep

/-- Wall-clock layouts with different separators read different texts. -/
theorem wall_unique {sep sep' : Item} (hsep : Separator sep) (hsep' : Separator sep')
    {layout layout' : List Item} {p q q' : Parsed} {s r r' : List Char}
    (h : parseItems (wall sep ++ layout) p s = some (q, r))
    (h' : parseItems (wall sep' ++ layout') p s = some (q', r')) : sep = sep' := by
  obtain ⟨date, rest, d, t, hdate, hd, hcase⟩ := separator_cases hsep h
  obtain ⟨date', rest', d', t', hdate', hd', hcase'⟩ := separator_cases hsep' h'
  obtain ⟨rfl, rfl⟩ : date = date' ∧ rest = rest' := by simpa [hdate] using hdate'
  obtain ⟨rfl, rfl⟩ : d = d' ∧ t = t' := by simpa [hd] using hd'
  rcases hcase with ⟨rfl, hfalse⟩ | ⟨rfl, htrue⟩
  · rcases hcase' with ⟨rfl, -⟩ | ⟨-, htrue⟩
    · rfl
    · rw [hfalse] at htrue
      cases htrue
  · rcases hcase' with ⟨-, hfalse⟩ | ⟨rfl, -⟩
    · rw [hfalse] at htrue
      cases htrue
    · rfl

/-! ### RFC 3339 -/

theorem takeNumber_of_digits {bound : ℕ} {a r : List Char} {acc : ℕ}
    (ha : a.all Char.isDigit = true)
    (hle : a.foldl (fun v c => v * 10 + value c) acc ≤ bound) :
    takeNumber bound a.length (a ++ r) acc =
      some (a.foldl (fun v c => v * 10 + value c) acc, r) := by
  induction a generalizing acc with
  | nil => rfl
  | cons c a ih =>
    rw [List.all_cons, Bool.and_eq_true] at ha
    have hgrow (a : List Char) (n : ℕ) : n ≤ a.foldl (fun v c => v * 10 + value c) n := by
      induction a generalizing n with
      | nil => exact le_rfl
      | cons c a ih => exact le_trans (by omega) (ih (n * 10 + value c))
    rw [List.length_cons, List.cons_append, takeNumber, if_pos ha.1,
      if_pos (le_trans (hgrow a _) hle)]
    exact ih ha.2 hle

theorem foldl_value_lt {a : List Char} (ha : a.all Char.isDigit = true) (acc : ℕ) :
    a.foldl (fun v c => v * 10 + value c) acc < (acc + 1) * 10 ^ a.length := by
  induction a generalizing acc with
  | nil => simp
  | cons c a ih =>
    rw [List.all_cons, Bool.and_eq_true] at ha
    have hvalue : value c ≤ 9 := by
      have := (isDigit_iff c).1 ha.1
      unfold value
      omega
    have hstep : (acc * 10 + value c + 1) * 10 ^ a.length ≤ (acc + 1) * 10 ^ (c :: a).length := by
      rw [List.length_cons, pow_succ', ← mul_assoc]
      exact Nat.mul_le_mul_right _ (by omega)
    exact lt_of_lt_of_le (ih ha.2 _) hstep

/-- Exactly so many digits are also a number of at most so many. -/
theorem number_of_exactDigits {n v : ℕ} {s r : List Char} (hn : 0 < n) (hle : n ≤ 18)
    (h : exactDigits n s = some (v, r)) :
    number i64Max n s = some (v, r) ∧ ∃ d t, s = d :: t ∧ d.isDigit = true := by
  rw [exactDigits] at h
  split_ifs at h with hdigits
  obtain ⟨hlen, hall⟩ := hdigits
  cases h
  have hbound : (s.take n).foldl (fun v c => v * 10 + value c) 0 ≤ i64Max := by
    have hlt := foldl_value_lt hall 0
    have hpow : 10 ^ n ≤ 10 ^ 18 := Nat.pow_le_pow_right (by norm_num) hle
    rw [hlen] at hlt
    unfold i64Max
    omega
  have hread := takeNumber_of_digits (r := s.drop n) hall hbound
  rw [hlen, List.take_append_drop] at hread
  cases s with
  | nil =>
    rw [List.take_nil, List.length_nil] at hlen
    omega
  | cons d t =>
    obtain ⟨m, rfl⟩ : ∃ m, n = m + 1 := ⟨n - 1, by omega⟩
    have hd : d.isDigit = true := by
      rw [List.take_succ_cons, List.all_cons, Bool.and_eq_true] at hall
      exact hall.1
    refine ⟨?_, d, t, rfl, hd⟩
    rw [number, if_pos hd]
    exact hread

theorem twoDigits_of_exactDigits {lo hi v : ℕ} {s r : List Char}
    (h : exactDigits 2 s = some (v, r)) (hlo : lo ≤ v) (hhi : v ≤ hi) :
    twoDigits lo hi s = some (v, r) := by
  obtain ⟨hnumber, d, t, rfl, hd⟩ := number_of_exactDigits (by norm_num) (by norm_num) h
  rw [twoDigits, trimStart_cons (isWhitespace_of_isDigit hd), hnumber]
  exact if_pos ⟨hlo, hhi⟩

theorem readYear_of_exactDigits {v : ℕ} {s r : List Char} (h : exactDigits 4 s = some (v, r)) :
    readYear s = some ((v : ℤ), r) := by
  obtain ⟨hnumber, d, t, rfl, hd⟩ := number_of_exactDigits (by norm_num) (by norm_num) h
  rw [readYear_eq, trimStart_cons (isWhitespace_of_isDigit hd), bareYear_digit hd, hnumber]
  rfl

theorem expect_eq_some {allowed s r : List Char} (h : expect allowed s = some r) :
    ∃ c ∈ allowed, s = c :: r := by
  cases s with
  | nil => cases h
  | cons c s =>
    rw [expect] at h
    split_ifs at h with hc
    cases h
    exact ⟨c, hc, rfl⟩

/-- The ranges of a date and a time of day. -/
theorem toNaive_cases {p : Parsed} {y : ℤ} {mo d : ℕ} {t : DateTime} (hy : p.year = some y)
    (hmo : p.month = some mo) (hd : p.day = some d) (h : p.toNaive = some t) :
    1 ≤ mo ∧ mo ≤ 12 ∧ 1 ≤ d ∧ d ≤ 31 := by
  obtain ⟨date, hdate, -⟩ := Option.bind_eq_some_iff.1 h
  have hvalid : (⟨y, mo, d⟩ : Date).Valid := by
    rw [Parsed.toDate, hy, hmo, hd] at hdate
    by_contra hinvalid
    have hnone : (none : Option Date) = some date := by
      rw [← hdate]
      exact (if_neg fun hboth => hinvalid hboth.1).symm
    cases hnone
  have hlast : d ≤ daysInMonth y mo := hvalid.day_le
  unfold daysInMonth at hlast
  refine ⟨hvalid.month_pos, hvalid.month_le, hvalid.day_pos, ?_⟩
  split_ifs at hlast <;> omega

/-- What RFC 3339 accepts starts with a wall-clock text and its fraction. -/
theorem parseRfc3339_cases {s : List Char} {reading : DateTime} {offset : ℤ}
    (h : parseRfc3339 s = some (reading, offset)) :
    ∃ sep q zone, (sep = .literal 'T' ∨ sep = .literal 't' ∨ sep = .space) ∧
      parseItems (wall sep ++ [.fraction]) {} s = some (q, zone) ∧
      readRfc3339Offset zone = some (offset, []) ∧ q.toNaive = some reading := by
  obtain ⟨⟨year, s1⟩, hyear, h⟩ := Option.bind_eq_some_iff.1 h
  obtain ⟨s2, hdash, h⟩ := Option.bind_eq_some_iff.1 h
  obtain ⟨⟨month, s3⟩, hmonth, h⟩ := Option.bind_eq_some_iff.1 h
  obtain ⟨s4, hdash', h⟩ := Option.bind_eq_some_iff.1 h
  obtain ⟨⟨day, s5⟩, hday, h⟩ := Option.bind_eq_some_iff.1 h
  obtain ⟨s6, hsep, h⟩ := Option.bind_eq_some_iff.1 h
  obtain ⟨⟨hour, s7⟩, hhour, h⟩ := Option.bind_eq_some_iff.1 h
  obtain ⟨s8, hcolon, h⟩ := Option.bind_eq_some_iff.1 h
  obtain ⟨⟨minute, s9⟩, hminute, h⟩ := Option.bind_eq_some_iff.1 h
  obtain ⟨s10, hcolon', h⟩ := Option.bind_eq_some_iff.1 h
  obtain ⟨⟨second, s11⟩, hsecond, h⟩ := Option.bind_eq_some_iff.1 h
  -- the fields read so far, and what is left to do behind the fraction
  let fields : Parsed :=
    { year := some (year : ℤ), month := some month, day := some day, hour := some hour,
      minute := some minute, second := some second }
  let close (nanos : Option ℕ) (zone : List Char) : Option (DateTime × ℤ) :=
    (readRfc3339Offset zone).bind fun read =>
      if read.2 ≠ [] ∨ hour > 23 ∨ minute > 59 ∨ second > 60 then none
      else ({ fields with nanosecond := nanos } : Parsed).toNaive.bind fun reading =>
        some (reading, read.1)
  obtain ⟨nanos, zone, hfraction, hclose⟩ : ∃ nanos zone,
      Item.fraction.parse fields s11 = some ({ fields with nanosecond := nanos }, zone) ∧
        close nanos zone = some (reading, offset) := by
    by_cases hdot : s11.head? = some '.'
    · obtain ⟨t, rfl⟩ := List.head?_eq_some_iff.1 hdot
      obtain ⟨⟨nanos, zone⟩, hnanos, h⟩ := Option.bind_eq_some_iff.1 h
      obtain ⟨⟨v, zone'⟩, hread, heq⟩ := Option.map_eq_some_iff.1 hnanos
      cases heq
      refine ⟨some v, zone, ?_, h⟩
      show (readNanos t).map _ = _
      rw [hread]
      rfl
    · refine ⟨none, s11, fraction_parse_of_ne hdot fields, ?_⟩
      dsimp only at h
      split at h
      · exact absurd rfl hdot
      · exact h
  obtain ⟨⟨offset', rest⟩, hzone, hclose⟩ := Option.bind_eq_some_iff.1 hclose
  dsimp only at hclose
  split_ifs at hclose with hrange
  push Not at hrange
  obtain ⟨rfl, hhour', hminute', hsecond'⟩ := hrange
  obtain ⟨reading', hnaive, heq⟩ := Option.bind_eq_some_iff.1 hclose
  cases heq
  obtain ⟨hmo, hmo', hd, hd'⟩ :=
    toNaive_cases (p := { fields with nanosecond := nanos }) rfl rfl rfl hnaive
  obtain ⟨c1, hc1, rfl⟩ := expect_eq_some hdash
  obtain rfl := List.mem_singleton.1 hc1
  obtain ⟨c2, hc2, rfl⟩ := expect_eq_some hdash'
  obtain rfl := List.mem_singleton.1 hc2
  obtain ⟨c, hc, rfl⟩ := expect_eq_some hsep
  obtain ⟨c3, hc3, rfl⟩ := expect_eq_some hcolon
  obtain rfl := List.mem_singleton.1 hc3
  obtain ⟨c4, hc4, rfl⟩ := expect_eq_some hcolon'
  obtain rfl := List.mem_singleton.1 hc4
  have hdate : parseItems dateItems {} s =
      some ({ year := some (year : ℤ), month := some month, day := some day }, c :: s6) := by
    simp only [dateItems, parseItems]
    rw [Item.parse, readYear_of_exactDigits hyear]
    simp only [Option.map_some, Option.bind_some, literal_parse_cons]
    rw [Item.parse, twoDigits_of_exactDigits hmonth hmo hmo']
    simp only [Option.map_some, Option.bind_some, literal_parse_cons]
    rw [Item.parse, twoDigits_of_exactDigits hday hd hd']
    rfl
  have htime : parseItems (timeItems ++ [.fraction])
      { year := some (year : ℤ), month := some month, day := some day } s6 =
        some ({ fields with nanosecond := nanos }, zone) := by
    simp only [timeItems, minuteItems, List.cons_append, List.nil_append, parseItems]
    rw [Item.parse, twoDigits_of_exactDigits hhour (Nat.zero_le _) hhour']
    simp only [Option.map_some, Option.bind_some, literal_parse_cons]
    rw [Item.parse, twoDigits_of_exactDigits hminute (Nat.zero_le _) hminute']
    simp only [Option.map_some, Option.bind_some, literal_parse_cons]
    rw [Item.parse, twoDigits_of_exactDigits hsecond (Nat.zero_le _) hsecond']
    simp only [Option.map_some, Option.bind_some]
    rw [hfraction]
    rfl
  -- a space is skipped like any white space before the hour
  have hread (sep : Item) (hsep : sep.parse
      { year := some (year : ℤ), month := some month, day := some day } (c :: s6) =
        some ({ year := some (year : ℤ), month := some month, day := some day }, s6)) :
      parseItems (wall sep ++ [.fraction]) {} s =
        some ({ fields with nanosecond := nanos }, zone) := by
    rw [wall_eq, List.append_assoc, parseItems_append, hdate]
    simp only [Option.bind_some, List.cons_append, parseItems]
    rw [hsep]
    exact htime
  have hskip : trimStart s6 = s6 := by
    obtain ⟨-, d, t, rfl, hd⟩ := number_of_exactDigits (by norm_num) (by norm_num) hhour
    exact trimStart_cons (isWhitespace_of_isDigit hd)
  simp only [List.mem_cons, List.not_mem_nil, or_false] at hc
  rcases hc with rfl | rfl | rfl
  · exact ⟨_, _, zone, Or.inl rfl, hread _ (literal_parse_cons 'T' _ s6), hzone, hnaive⟩
  · exact ⟨_, _, zone, Or.inr (Or.inl rfl), hread _ (literal_parse_cons 't' _ s6), hzone, hnaive⟩
  · refine ⟨_, _, zone, Or.inr (Or.inr rfl), hread .space ?_, hzone, hnaive⟩
    show some (_, trimStart (' ' :: s6)) = _
    rw [trimStart, List.dropWhile_cons_of_pos (by decide), ← trimStart, hskip]

theorem exactDigits_fixed {w n : ℕ} (hn : n < 10 ^ w) (s : List Char) :
    exactDigits w (fixed w n ++ s) = some (n, s) := by
  have htake : (fixed w n ++ s).take w = fixed w n := by
    rw [List.take_left' (length_fixed w n)]
  have hdrop : (fixed w n ++ s).drop w = s := by
    rw [List.drop_left' (length_fixed w n)]
  have hdigits : (fixed w n).all Char.isDigit = true :=
    List.all_eq_true.2 fun c hc => isDigit_of_mem_fixed hc
  rw [exactDigits, htake, hdrop, if_pos ⟨length_fixed w n, hdigits⟩, foldl_fixed,
    Nat.mod_eq_of_lt hn, zero_mul, zero_add]

theorem expect_cons {allowed : List Char} {c : Char} (hc : c ∈ allowed) (s : List Char) :
    expect allowed (c :: s) = some s := if_pos hc

/-- The text of an instant with the offset of UTC is read as the instant without its fraction. -/
theorem parseRfc3339_wall {t : DateTime} (ht : FourDigitYear t) :
    parseRfc3339 (format (wall (.literal 'T')) t ++ "+00:00".toList) = some (t.trunc, 0) := by
  obtain ⟨hlo, hhi⟩ := ht
  have hm := month_bounds t
  have hd := day_bounds t
  have hh := hour_le t
  have hmi := minute_le t
  have hs := second_le t
  have hyear : formatYear t.year = fixed 4 t.year.toNat := if_pos ⟨hlo, by omega⟩
  have hzone : readRfc3339Offset "+00:00".toList = some (0, []) := by decide
  have hnat : ((t.year.toNat : ℕ) : ℤ) = t.year := by omega
  rw [format_wall, hyear]
  simp only [Item.format_literal, List.append_assoc, List.cons_append, List.nil_append]
  refine Option.bind_eq_some_iff.2 ⟨_, exactDigits_fixed (by omega) _, ?_⟩
  refine Option.bind_eq_some_iff.2 ⟨_, expect_cons (by decide) _, ?_⟩
  refine Option.bind_eq_some_iff.2 ⟨_, exactDigits_fixed (by omega) _, ?_⟩
  refine Option.bind_eq_some_iff.2 ⟨_, expect_cons (by decide) _, ?_⟩
  refine Option.bind_eq_some_iff.2 ⟨_, exactDigits_fixed (by omega) _, ?_⟩
  refine Option.bind_eq_some_iff.2 ⟨_, expect_cons (by decide) _, ?_⟩
  refine Option.bind_eq_some_iff.2 ⟨_, exactDigits_fixed (by omega) _, ?_⟩
  refine Option.bind_eq_some_iff.2 ⟨_, expect_cons (by decide) _, ?_⟩
  refine Option.bind_eq_some_iff.2 ⟨_, exactDigits_fixed (by omega) _, ?_⟩
  refine Option.bind_eq_some_iff.2 ⟨_, expect_cons (by decide) _, ?_⟩
  refine Option.bind_eq_some_iff.2 ⟨_, exactDigits_fixed (by omega) _, ?_⟩
  refine Option.bind_eq_some_iff.2 ⟨_, rfl, ?_⟩
  refine Option.bind_eq_some_iff.2 ⟨_, hzone, ?_⟩
  refine (if_neg (by rintro (h | h | h | h); exacts [h rfl, by omega, by omega, by omega])).trans ?_
  refine Option.bind_eq_some_iff.2 ⟨t.trunc, ?_, rfl⟩
  rw [hnat]
  exact toNaive_ofWall t

/-! ### Offsets -/

/-- The sign of an offset. -/
def signOf (c : Char) : Option ℤ :=
  if c = '+' then some 1 else if c = '-' ∨ c = '−' then some (-1) else none

theorem signOf_cases {c : Char} (h : (signOf c).isSome = true) : c = '+' ∨ c = '-' ∨ c = '−' := by
  rw [signOf] at h
  split_ifs at h with hplus hminus
  · exact Or.inl hplus
  · exact Or.inr hminus
  · cases h

theorem readOffset_eq {s t : List Char} {c : Char} (hs : trimStart s = c :: t) :
    readOffset s = (signOf c).bind fun sign => (digitPair 9 t).bind fun (hours, t) =>
      (digitPair 5 (t.dropWhile fun c => c == ':' || isWhitespace c)).map fun (minutes, t) =>
        (sign * (hours * 3600 + minutes * 60 : ℕ), t) := by
  rw [readOffset]
  simp only [hs]
  split
  · next heq =>
    obtain ⟨rfl, rfl⟩ := List.cons.inj heq
    rfl
  · next heq =>
    obtain ⟨rfl, rfl⟩ := List.cons.inj heq
    rfl
  · next heq =>
    obtain ⟨rfl, rfl⟩ := List.cons.inj heq
    rfl
  · next hplus hminus hmath =>
    have hnone : signOf c = none := by
      rw [signOf, if_neg, if_neg]
      · rintro (rfl | rfl)
        · exact hminus t rfl
        · exact hmath t rfl
      · rintro rfl
        exact hplus t rfl
    rw [hnone]
    rfl

theorem digitPair_cases {hi v : ℕ} {s r : List Char} (h : digitPair hi s = some (v, r)) :
    ∃ a b, s = a :: b :: r ∧ a.isDigit = true ∧ b.isDigit = true ∧ value a ≤ hi ∧
      v = value a * 10 + value b := by
  match s, h with
  | a :: b :: s, h =>
    rw [digitPair] at h
    split_ifs at h with hdigits
    cases h
    exact ⟨a, b, rfl, hdigits.1, hdigits.2.1, hdigits.2.2, rfl⟩

theorem digitPair_digits {hi : ℕ} {a b : Char} (ha : a.isDigit = true) (hb : b.isDigit = true)
    (hle : value a ≤ hi) (r : List Char) :
    digitPair hi (a :: b :: r) = some (value a * 10 + value b, r) := if_pos ⟨ha, hb, hle⟩

/-- What stands between the hours and the minutes of an offset. -/
def betweenOffset (c : Char) : Bool := c == ':' || isWhitespace c

theorem betweenOffset_digit {c : Char} (hc : c.isDigit = true) : betweenOffset c = false := by
  rw [betweenOffset, isWhitespace_of_isDigit hc, Bool.or_false, beq_eq_false_iff_ne]
  rintro rfl
  cases hc

/-- An offset is a sign, two digits, anything between and two digits. -/
theorem readOffset_cases {s r : List Char} {o : ℤ} (h : readOffset s = some (o, r)) :
    ∃ c a b between d e, trimStart s = c :: a :: b :: (between ++ d :: e :: r) ∧
      (signOf c).isSome = true ∧ a.isDigit = true ∧ b.isDigit = true ∧ d.isDigit = true ∧
      e.isDigit = true ∧ ∀ s' r', trimStart s' = c :: a :: b :: (between ++ d :: e :: r') →
        readOffset s' = some (o, r') := by
  cases hs : trimStart s with
  | nil =>
    rw [readOffset] at h
    simp only [hs] at h
    cases h
  | cons c t =>
    rw [readOffset_eq hs] at h
    obtain ⟨sign, hsign, h⟩ := Option.bind_eq_some_iff.1 h
    obtain ⟨⟨hours, t'⟩, hhours, h⟩ := Option.bind_eq_some_iff.1 h
    obtain ⟨⟨minutes, r'⟩, hminutes, heq⟩ := Option.map_eq_some_iff.1 h
    cases heq
    obtain ⟨a, b, rfl, ha, hb, hale, rfl⟩ := digitPair_cases hhours
    obtain ⟨d, e, hrest, hd, he, hdle, rfl⟩ := digitPair_cases hminutes
    have hbetween : ∀ c ∈ t'.takeWhile betweenOffset, betweenOffset c = true :=
      fun c hc => List.mem_takeWhile_imp hc
    have hsplit : t' = t'.takeWhile betweenOffset ++ d :: e :: r :=
      (List.takeWhile_append_dropWhile (p := betweenOffset)).symm.trans
        (congrArg (t'.takeWhile betweenOffset ++ ·) hrest)
    refine ⟨c, a, b, t'.takeWhile betweenOffset, d, e, by rw [← hsplit], by rw [hsign]; rfl, ha, hb,
      hd, he, fun s' r' hs' => ?_⟩
    have hdrop : (t'.takeWhile betweenOffset ++ d :: e :: r').dropWhile betweenOffset =
        d :: e :: r' := by
      rw [List.dropWhile_append_of_pos hbetween]
      exact List.dropWhile_cons_of_neg (by simp [betweenOffset_digit hd])
    rw [readOffset_eq hs', hsign, Option.bind_some, digitPair_digits ha hb hale, Option.bind_some]
    show (digitPair 5 (List.dropWhile betweenOffset _)).map _ = _
    rw [hdrop, digitPair_digits hd he hdle]
    rfl

/-- The offset of RFC 3339 is `Z` or an offset of less than a day. -/
theorem readRfc3339Offset_cases {zone : List Char} {offset : ℤ}
    (h : readRfc3339Offset zone = some (offset, [])) :
    (zone = ['Z'] ∨ zone = ['z']) ∧ offset = 0 ∨
      ∃ c a b d e, zone = [c, a, b, ':', d, e] ∧ (signOf c).isSome = true ∧ e.isDigit = true ∧
        ',' ∉ zone ∧ readOffset zone = some (offset, []) ∧ -86400 < offset ∧ offset < 86400 := by
  cases zone with
  | nil => cases h
  | cons c t =>
    rw [readRfc3339Offset] at h
    by_cases hzulu : c = 'Z' ∨ c = 'z'
    · rw [if_pos hzulu] at h
      cases h
      exact Or.inl ⟨hzulu.imp (congrArg (· :: [])) (congrArg (· :: [])), rfl⟩
    · rw [if_neg hzulu] at h
      obtain ⟨sign, hsign, hone, h⟩ : ∃ sign, signOf c = some sign ∧ (sign = 1 ∨ sign = -1) ∧
          ((digitPair 9 t).bind fun (hours, s) => (expect [':'] s).bind fun s =>
            (digitPair 5 s).bind fun (minutes, s) =>
              if hours * 3600 + minutes * 60 < 86400 then
                some (sign * (hours * 3600 + minutes * 60 : ℕ), s)
              else none) = some (offset, []) := by
        split_ifs at h with hplus hminus
        · exact ⟨1, if_pos hplus, Or.inl rfl, h⟩
        · exact ⟨-1, (if_neg hplus).trans (if_pos hminus), Or.inr rfl, h⟩
        · cases h
      obtain ⟨⟨hours, s1⟩, hhours, h⟩ := Option.bind_eq_some_iff.1 h
      obtain ⟨s2, hcolon, h⟩ := Option.bind_eq_some_iff.1 h
      obtain ⟨⟨minutes, s3⟩, hminutes, h⟩ := Option.bind_eq_some_iff.1 h
      dsimp only at h
      split_ifs at h with hday
      cases h
      obtain ⟨a, b, rfl, ha, hb, hale, rfl⟩ := digitPair_cases hhours
      obtain ⟨c1, hc1, rfl⟩ := expect_eq_some hcolon
      obtain rfl := List.mem_singleton.1 hc1
      obtain ⟨d, e, rfl, hd, he, hdle, rfl⟩ := digitPair_cases hminutes
      have hsome : (signOf c).isSome = true := by
        rw [hsign]
        rfl
      have hblank : isWhitespace c = false := by
        rcases signOf_cases hsome with rfl | rfl | rfl <;> decide
      have hcomma : ',' ∉ [c, a, b, ':', d, e] := by
        have hdigit {x : Char} (hx : x.isDigit = true) : ',' ≠ x := by
          rintro rfl
          cases hx
        have hsign' : ',' ≠ c := by
          rcases signOf_cases hsome with rfl | rfl | rfl <;> decide
        simp [hdigit ha, hdigit hb, hdigit hd, hdigit he, hsign']
      refine Or.inr ⟨c, a, b, d, e, rfl, hsome, he, hcomma, ?_, ?_, ?_⟩
      · rw [readOffset_eq (trimStart_cons hblank), hsign, Option.bind_some,
          digitPair_digits ha hb hale, Option.bind_some]
        show (digitPair 5 (List.dropWhile betweenOffset [':', d, e])).map _ = _
        rw [List.dropWhile_cons_of_pos (by decide),
          List.dropWhile_cons_of_neg (by simp [betweenOffset_digit hd]), digitPair_digits hd he hdle]
        rfl
      · rcases hone with rfl | rfl <;> omega
      · rcases hone with rfl | rfl <;> omega

end Chrono
