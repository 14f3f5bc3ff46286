import EraseMe.Identity.ProfileNormal

/-!
# The cursor on a strict text

On a JSON text the cursor finds the end of every string and of every value
(`skipValue_spells`), however deep it is nested up to the bound, and the check of a simple value
tells strings, lists of strings and `null` from everything else
(`validateSimpleValue_spells`).
-/

namespace EraseMe.Identity.Secrets

open Json

/-! ### Strings -/

theorem parseStringFrom_chars {cs : List Char} {t : Bytes} (h : CharsText cs t) (s : Bytes) :
    ∀ fuel, t.length < fuel → parseStringFrom fuel (t ++ 34 :: s) = some s := by
  induction h with
  | nil =>
    intro fuel hfuel
    obtain ⟨fuel, rfl⟩ := Nat.exists_eq_succ_of_ne_zero (Nat.ne_of_gt hfuel)
    rfl
  | @cons c t cs rest hchar _ ih =>
    intro fuel hfuel
    obtain ⟨fuel, rfl⟩ := Nat.exists_eq_succ_of_ne_zero (Nat.ne_of_gt (Nat.zero_lt_of_lt hfuel))
    have hpos := length_pos_of_char hchar
    rw [List.length_append] at hfuel
    rw [List.append_assoc]
    cases hchar with
    | plain hcontrol hquote hbackslash =>
      obtain ⟨b, tail, hb, hle, h34, h92, hascii⟩ := encode_plain hcontrol hquote hbackslash
      rw [hb] at hfuel ⊢
      rw [List.length_cons] at hfuel
      rw [List.cons_append, parseStringFrom.eq_def]
      simp only [if_neg h34, if_neg h92, if_neg (UInt8.not_lt.2 hle)]
      by_cases hlt : b < 0x80
      · rw [if_pos hlt, hascii hlt]
        exact ih fuel (by omega)
      · rw [if_neg hlt, validUtf8Width_encode hb hlt]
        simp only [List.drop_succ_cons, List.drop_left]
        exact ih fuel (by omega)
    | @short e h =>
      obtain ⟨hsimple, h117⟩ := simpleEscape_of_short h
      rw [List.cons_append, List.cons_append, List.nil_append, parseStringFrom.eq_def]
      simp only [if_neg (show ¬ (92 : UInt8) = 34 by decide), if_pos, if_neg h117, hsimple]
      exact ih fuel (by simp at hfuel; omega)
    | @unit a b d e h =>
      have hquad : hexQuad (a :: b :: d :: e :: (rest ++ 34 :: s)) = some c.toNat := h
      rw [List.cons_append, List.cons_append, parseStringFrom.eq_def]
      simp only [if_neg (show ¬ (92 : UInt8) = 34 by decide), if_pos, List.cons_append,
        List.nil_append, hquad, List.drop_succ_cons, List.drop_zero]
      exact ih fuel (by simp at hfuel; omega)
    | @pair a b d e a' b' d' e' high low hhigh hlow hc hhigh' hlow' =>
      -- the two units are two turns of the loop
      obtain ⟨fuel, rfl⟩ : ∃ n, fuel = n + 1 := ⟨fuel - 1, by simp at hfuel; omega⟩
      have hquad : hexQuad (a :: b :: d :: e :: 92 :: 117 :: a' :: b' :: d' :: e' ::
          (rest ++ 34 :: s)) = some high := hhigh
      have hquad' : hexQuad (a' :: b' :: d' :: e' :: (rest ++ 34 :: s)) = some low := hlow
      rw [List.cons_append, List.cons_append, parseStringFrom.eq_def]
      simp only [if_neg (show ¬ (92 : UInt8) = 34 by decide), if_pos, List.cons_append,
        List.nil_append, hquad, List.drop_succ_cons, List.drop_zero]
      rw [parseStringFrom.eq_def]
      simp only [if_neg (show ¬ (92 : UInt8) = 34 by decide), if_pos, hquad',
        List.drop_succ_cons, List.drop_zero]
      exact ih fuel (by simp at hfuel; omega)

theorem parseString_text {text : String} {t : Bytes} (h : StringText text t) (s : Bytes) :
    parseString (t ++ s) = some s := by
  obtain ⟨body, hbody, rfl⟩ := h
  rw [List.cons_append, List.append_assoc, List.singleton_append, parseString, if_pos rfl]
  exact parseStringFrom_chars hbody s _ (by simp)

theorem head_stringText {text : String} {t : Bytes} (h : StringText text t) :
    ∃ t', t = 34 :: t' := by
  obtain ⟨body, -, rfl⟩ := h
  exact ⟨_, rfl⟩

theorem consumed_append (t s : Bytes) : consumed (t ++ s) s = t := by
  rw [consumed, List.length_append, Nat.add_sub_cancel, List.take_left]


/-! ### Numbers -/

theorem ends_ne {s : Bytes} (h : Ends s) : NoDigit s ∧ s.head? ≠ some 46 ∧ s.head? ≠ some 101 ∧
    s.head? ≠ some 69 := by
  cases s with
  | nil => exact ⟨nofun, nofun, nofun, nofun⟩
  | cons b s =>
    have hb : b ∈ ([32, 10, 13, 9, 44, 93, 125] : Bytes) := by
      rcases h b rfl with hb | rfl | rfl | rfl
      · rw [isBlank, decide_eq_true_eq] at hb
        rcases hb with rfl | rfl | rfl | rfl <;> decide
      all_goals decide
    have hall : ∀ b ∈ ([32, 10, 13, 9, 44, 93, 125] : Bytes),
        isDigit b = false ∧ b ≠ 46 ∧ b ≠ 101 ∧ b ≠ 69 := by decide
    obtain ⟨hdigit, h46, h101, h69⟩ := hall b hb
    refine ⟨fun a ha => ?_, by simpa using ⟨h46, h101, h69⟩⟩
    rwa [← Option.some.inj ha]

theorem isValueDelimiter_of_ends {s : Bytes} (h : Ends s) : isValueDelimiter s.head? = true := by
  cases s with
  | nil => rfl
  | cons b s => exact decide_eq_true (h b rfl)

theorem dropWhile_digits {ds s : Bytes} (h : ∀ d ∈ ds, isDigit d = true) (hs : NoDigit s) :
    (ds ++ s).dropWhile isDigit = s := by
  rw [List.dropWhile_append_of_pos h]
  cases s with
  | nil => rfl
  | cons b s => exact List.dropWhile_cons_of_neg (by simp [hs b rfl])

theorem parseDigits_digits {ds s : Bytes} (h : Digits ds) (hs : NoDigit s) :
    parseDigits (ds ++ s) = some s := by
  have hpos := List.length_pos_of_ne_nil h.1
  simp only [parseDigits, dropWhile_digits h.2 hs]
  rw [if_neg (by rw [List.length_append]; omega)]

theorem parseInteger_whole {t s : Bytes} (h : WholeText t) (hs : NoDigit s) :
    parseInteger (t ++ s) = some s := by
  rcases h with rfl | ⟨b, ds, rfl, hb, hzero, hds⟩
  · rfl
  · have hrange : 49 ≤ b ∧ b ≤ 57 := by
      rw [isDigit, decide_eq_true_eq] at hb
      have hne : b.toNat ≠ 48 := fun h => hzero (UInt8.toNat_inj.1 h)
      simp only [UInt8.le_iff_toNat_le, UInt8.reduceToNat] at hb ⊢
      omega
    rw [List.cons_append, parseInteger, if_neg hzero, if_pos hrange, dropWhile_digits hds hs]

theorem parseFraction_fraction {t s : Bytes} (h : FractionText t) (hs : NoDigit s)
    (hpoint : s.head? ≠ some 46) : parseFraction (t ++ s) = some s := by
  rcases h with rfl | ⟨ds, hds, rfl⟩
  · exact if_neg hpoint
  · rw [parseFraction, List.cons_append, List.head?_cons, if_pos rfl, List.tail_cons,
      parseDigits_digits hds hs]

theorem parseExponent_exponent {t s : Bytes} (h : ExponentText t) (hs : Ends s) :
    parseExponent (t ++ s) = some s := by
  obtain ⟨hdigit, -, h101, h69⟩ := ends_ne hs
  rcases h with rfl | ⟨e, sign, ds, he, hsign, hds, rfl⟩
  · exact if_neg (by simp [h101, h69])
  · have hparse := parseDigits_digits hds hdigit
    have hhead : (ds ++ s).head? ≠ some 43 ∧ (ds ++ s).head? ≠ some 45 := by
      obtain ⟨hne, hall⟩ := hds
      obtain ⟨d, ds, rfl⟩ := List.exists_cons_of_ne_nil hne
      have hd := hall d List.mem_cons_self
      simpa using ⟨isDigit_ne hd rfl, isDigit_ne hd rfl⟩
    rw [parseExponent, List.cons_append, List.head?_cons, List.tail_cons, List.append_assoc,
      if_pos (by rcases he with rfl | rfl <;> simp)]
    rcases hsign with rfl | rfl | rfl
    · simp only [List.nil_append]
      rw [if_neg (not_or.2 hhead), hparse]
    · simp [hparse]
    · simp [hparse]

theorem parseNumber_number {t s : Bytes} (h : NumberText t) (hs : Ends s) :
    parseNumber (t ++ s) = some s := by
  obtain ⟨sign, whole, fraction, exponent, hsign, hwhole, hfraction, hexponent, rfl⟩ := h
  obtain ⟨hdigit, h46, -, -⟩ := ends_ne hs
  -- what follows the digits of each part
  have hmark : NoDigit (exponent ++ s) ∧ (exponent ++ s).head? ≠ some 46 := by
    rcases hexponent with rfl | ⟨e, sign, ds, rfl | rfl, -, -, rfl⟩
    · exact ⟨hdigit, h46⟩
    · exact ⟨fun b hb => by cases hb; rfl, by simp⟩
    · exact ⟨fun b hb => by cases hb; rfl, by simp⟩
  have hpoint : NoDigit (fraction ++ (exponent ++ s)) := by
    rcases hfraction with rfl | ⟨ds, -, rfl⟩
    · exact hmark.1
    · exact fun b hb => by cases hb; rfl
  have hunsigned : (whole ++ (fraction ++ (exponent ++ s))).head? ≠ some 45 := by
    rcases hwhole with rfl | ⟨b, ds, rfl, hb, -, -⟩
    · simp
    · simpa using isDigit_ne hb rfl
  have hparts : ((parseInteger (whole ++ (fraction ++ (exponent ++ s)))).bind fun s =>
      (parseFraction s).bind parseExponent).filter (fun rest => isValueDelimiter rest.head?) =
        some s := by
    rw [parseInteger_whole hwhole hpoint, Option.bind_some,
      parseFraction_fraction hfraction hmark.1 hmark.2, Option.bind_some,
      parseExponent_exponent hexponent hs, Option.filter_some,
      if_pos (isValueDelimiter_of_ends hs)]
  rw [List.append_assoc, List.append_assoc, List.append_assoc, parseNumber]
  rcases hsign with rfl | rfl
  · rw [List.nil_append, if_neg hunsigned, hparts]
  · rw [List.singleton_append, List.head?_cons, if_pos rfl, List.tail_cons, hparts]

/-! ### Values -/

/-- With enough fuel. -/
def Skips (frames : List JsonFrame) (s rest : Bytes) : Prop :=
  ∀ fuel, s.length ≤ fuel → skipLoop fuel frames s = some rest

theorem skips_nil (s : Bytes) : Skips [] s s := by
  intro fuel _
  cases fuel <;> rfl

theorem Skips.step {frame : JsonFrame} {frames frames' : List JsonFrame} {s s' rest : Bytes}
    (h : Skips frames' s' rest) (hstep : skipStep frame frames s = some (frames', s'))
    (hlt : s'.length < s.length) : Skips (frame :: frames) s rest := by
  intro fuel hfuel
  obtain ⟨fuel, rfl⟩ : ∃ n, fuel = n + 1 := ⟨fuel - 1, by omega⟩
  rw [skipLoop, hstep]
  exact h fuel (by omega)

/-- From the start of a value on. -/
def SkipsValue (frames : List JsonFrame) (s rest : Bytes) : Prop :=
  ∃ frames' s', startValue frames s = some (frames', s') ∧ s'.length < s.length ∧
    Skips frames' s' rest

section Spells

variable {number : Octets → ℤ ⊕ ℤ × ℤ} {frames : List JsonFrame} {s rest : Bytes}

theorem SkipsValue.token {t : Bytes} (h : Skips frames s rest)
    (hstart : startValue frames (t ++ s) = some (frames, s)) (hpos : 0 < t.length) :
    SkipsValue frames (t ++ s) rest := by
  refine ⟨frames, s, hstart, ?_, h⟩
  rw [List.length_append]
  omega

theorem startValue_number {t : Bytes} (ht : NumberText t) (hs : Ends s) :
    startValue frames (t ++ s) = some (frames, s) := by
  have hparse := parseNumber_number ht hs
  obtain ⟨b, t', rfl, hb⟩ := head_numberText ht
  have hrange : b = 45 ∨ 48 ≤ b ∧ b ≤ 57 := by
    rcases hb with hb | hb
    · exact Or.inl hb
    · exact Or.inr (by simpa [isDigit] using hb)
  have hne {a : UInt8} (h45 : a ≠ 45) (ha : isDigit a = false) : b ≠ a := by
    rcases hb with rfl | hb
    · exact h45.symm
    · exact isDigit_ne hb ha
  have hblank : isBlank b = false := by
    rw [isBlank, decide_eq_false_iff_not]
    rintro (h | h | h | h)
    all_goals exact hne (by decide) (by decide) h
  have hskip : skipBlank (b :: t' ++ s) = b :: t' ++ s :=
    List.dropWhile_cons_of_neg (by simp [hblank])
  unfold startValue
  simp only [hskip]
  rw [List.cons_append] at hparse ⊢
  simp only [List.head?_cons]
  rw [if_neg (hne (by decide) rfl), if_neg (hne (by decide) rfl), if_neg (hne (by decide) rfl),
    if_neg (hne (by decide) rfl), if_neg (hne (by decide) rfl), if_neg (hne (by decide) rfl),
    if_pos hrange, hparse, Option.map_some]

/-- A word or a string. -/
theorem startValue_simple {v : Json} {t : Bytes} (ht : Spells StringText number v t)
    (hv : (∃ b, v = .bool b) ∨ v = .null ∨ ∃ text, v = .string text) :
    startValue frames (t ++ s) = some (frames, s) := by
  have hskip : skipBlank (t ++ s) = t ++ s := skipBlank_spells ht blank_nil s
  unfold startValue
  simp only [hskip]
  rcases hv with ⟨b, rfl⟩ | rfl | ⟨text, rfl⟩
  · simp only [Spells] at ht
    subst ht
    cases b
    · rfl
    · rfl
  · simp only [Spells] at ht
    subst ht
    rfl
  · simp only [Spells] at ht
    have hparse := parseString_text ht s
    obtain ⟨t', rfl⟩ := head_stringText ht
    rw [List.cons_append] at hparse ⊢
    simp [hparse]

/-- One more bracket. -/
theorem startValue_open {b : UInt8} (hb : b = 91 ∨ b = 123)
    (hdepth : frames.length < goMaxJsonNestingDepth) :
    startValue frames (b :: s) = some
      ((if b = 91 then .array .valueOrEnd else .object .keyOrEnd) :: frames, s) := by
  rcases hb with rfl | rfl
  · have hskip : skipBlank (91 :: s) = 91 :: s := rfl
    simp [startValue, hskip, hdepth]
  · have hskip : skipBlank (123 :: s) = 123 :: s := rfl
    simp [startValue, hskip, hdepth]

theorem skipStep_comma {w : Bytes} (hw : Blank w) :
    skipStep (.array .commaOrEnd) frames (w ++ 44 :: s) = some (.array .value :: frames, s) := by
  rw [skipStep, skipBlank_mark hw (by decide), List.head?_cons, if_pos rfl, List.tail_cons]

theorem skipStep_bracket {w : Bytes} (hw : Blank w) {state : ArrayState} (hstate : state ≠ .value) :
    skipStep (.array state) frames (w ++ 93 :: s) = some (frames, s) := by
  cases state with
  | value => exact absurd rfl hstate
  | valueOrEnd =>
    rw [skipStep, skipBlank_mark hw (by decide), List.head?_cons, if_pos rfl, List.tail_cons]
  | commaOrEnd =>
    rw [skipStep, skipBlank_mark hw (by decide), List.head?_cons, if_neg (by decide), if_pos rfl,
      List.tail_cons]

theorem skipStep_memberComma {w : Bytes} (hw : Blank w) :
    skipStep (.object .commaOrEnd) frames (w ++ 44 :: s) = some (.object .key :: frames, s) := by
  rw [skipStep, skipBlank_mark hw (by decide), List.head?_cons, if_pos rfl, List.tail_cons]

theorem skipStep_brace {w : Bytes} (hw : Blank w) {state : ObjectState}
    (hstate : state = .keyOrEnd ∨ state = .commaOrEnd) :
    skipStep (.object state) frames (w ++ 125 :: s) = some (frames, s) := by
  rcases hstate with rfl | rfl
  · rw [skipStep, skipBlank_mark hw (by decide), List.head?_cons, if_pos rfl, List.tail_cons]
  · rw [skipStep, skipBlank_mark hw (by decide), List.head?_cons, if_neg (by decide), if_pos rfl,
      List.tail_cons]

/-- The name of a member and its colon. -/
theorem skipStep_key {name : String} {w k w₁ : Bytes} (hw : Blank w) (hk : StringText name k)
    (hw₁ : Blank w₁) {state : ObjectState} (hstate : state = .keyOrEnd ∨ state = .key) :
    skipStep (.object state) frames (w ++ (k ++ (w₁ ++ 58 :: s))) =
      some (.object .value :: frames, s) := by
  have hparse : parseKey (k ++ (w₁ ++ 58 :: s)) = some s := by
    rw [parseKey, parseString_text hk, Option.bind_some,
      skipBlank_mark hw₁ (show isBlank 58 = false by decide), List.head?_cons, if_pos rfl,
      List.tail_cons]
  obtain ⟨k', rfl⟩ := head_stringText hk
  have hskip : skipBlank (w ++ (34 :: k' ++ (w₁ ++ 58 :: s))) = 34 :: k' ++ (w₁ ++ 58 :: s) :=
    skipBlank_mark hw (by decide)
  have hhead : (34 :: k' ++ (w₁ ++ 58 :: s)).head? ≠ some 125 := by simp
  rcases hstate with rfl | rfl
  · rw [skipStep, hskip, if_neg hhead, hparse, Option.map_some]
  · rw [skipStep, hskip, if_neg hhead, hparse, Option.map_some]

/-- An item in either state in which there may be one. -/
theorem Skips.item {w t : Bytes} {v : Json} (hw : Blank w) (ht : Spells StringText number v t)
    (h : SkipsValue (.array .commaOrEnd :: frames) (t ++ s) rest) {state : ArrayState}
    (hstate : state ≠ .commaOrEnd) : Skips (.array state :: frames) (w ++ (t ++ s)) rest := by
  obtain ⟨frames', s', hstart, hlt, hskips⟩ := h
  have hskip := skipBlank_spells ht hw s
  have hhead : (t ++ s).head? ≠ some 93 := by
    obtain ⟨b, t', rfl, hb⟩ := head_spells ht
    simpa using hb.ne.2.1
  have hstep : skipStep (.array state) frames (w ++ (t ++ s)) = some (frames', s') := by
    cases state with
    | commaOrEnd => exact absurd rfl hstate
    | valueOrEnd => rw [skipStep, hskip, if_neg hhead, hstart]
    | value => rw [skipStep, hskip, if_neg hhead, hstart]
  exact hskips.step hstep (by rw [List.length_append]; omega)

/-- The value of a member. -/
theorem Skips.member {w t : Bytes} {v : Json} (hw : Blank w) (ht : Spells StringText number v t)
    (h : SkipsValue (.object .commaOrEnd :: frames) (t ++ s) rest) :
    Skips (.object .value :: frames) (w ++ (t ++ s)) rest := by
  obtain ⟨frames', s', hstart, hlt, hskips⟩ := h
  refine hskips.step (s := w ++ (t ++ s)) ?_ ?_
  · have hskip := skipBlank_spells ht hw s
    have hskip' : skipBlank (t ++ s) = t ++ s := skipBlank_spells ht blank_nil s
    rw [skipStep, ← hstart]
    unfold startValue
    rw [hskip, hskip']
  · rw [List.length_append]
    omega

mutual

theorem skips_value : ∀ (v : Json) {t s rest : Bytes} {frames : List JsonFrame},
    Spells StringText number v t → Ends s → frames.length + v.depth ≤ goMaxJsonNestingDepth →
      Skips frames s rest → SkipsValue frames (t ++ s) rest
  | .null, t, s, rest, frames, ht, _, _, h => by
      refine .token h (startValue_simple ht (Or.inr (Or.inl rfl))) ?_
      obtain ⟨b, t', rfl, -⟩ := head_spells ht
      simp
  | .bool b, t, s, rest, frames, ht, _, _, h => by
      refine .token h (startValue_simple ht (Or.inl ⟨b, rfl⟩)) ?_
      obtain ⟨b, t', rfl, -⟩ := head_spells ht
      simp
  | .int n, t, s, rest, frames, ht, hs, _, h => by
      simp only [Spells] at ht
      obtain ⟨b, t', rfl, -⟩ := head_numberText ht.1
      exact .token h (startValue_number ht.1 hs) (by simp)
  | .float mantissa exponent, t, s, rest, frames, ht, hs, _, h => by
      simp only [Spells] at ht
      obtain ⟨b, t', rfl, -⟩ := head_numberText ht.1
      exact .token h (startValue_number ht.1 hs) (by simp)
  | .string text, t, s, rest, frames, ht, _, _, h => by
      refine .token h (startValue_simple ht (Or.inr (Or.inr ⟨text, rfl⟩))) ?_
      obtain ⟨b, t', rfl, -⟩ := head_spells ht
      simp
  | .array items, t, s, rest, frames, ht, _, hdepth, h => by
      simp only [Spells] at ht
      obtain ⟨inner, hinner, rfl⟩ := ht
      rw [Json.depth] at hdepth
      rw [List.cons_append, List.append_assoc, List.singleton_append]
      refine ⟨_, _, startValue_open (Or.inl rfl) (by omega), by simp, ?_⟩
      exact skips_items items hinner (by omega) h (by simp) (by simp)
  | .object fields, t, s, rest, frames, ht, _, hdepth, h => by
      simp only [Spells] at ht
      obtain ⟨inner, hinner, rfl⟩ := ht
      rw [Json.depth] at hdepth
      rw [List.cons_append, List.append_assoc, List.singleton_append]
      refine ⟨_, _, startValue_open (Or.inr rfl) (by omega), by simp, ?_⟩
      exact skips_members fields hinner (by omega) h (Or.inl rfl) (by simp)

theorem skips_items : ∀ (items : List Json) {t s rest : Bytes} {frames : List JsonFrame},
    SpellsItems StringText number items t →
      frames.length + (depthItems items + 1) ≤ goMaxJsonNestingDepth → Skips frames s rest →
        ∀ {state : ArrayState}, state ≠ .commaOrEnd → (items = [] → state ≠ .value) →
          Skips (.array state :: frames) (t ++ 93 :: s) rest
  | [], t, s, rest, frames, ht, _, h, state, _, hnil => by
      simp only [SpellsItems] at ht
      exact h.step (skipStep_bracket ht (hnil rfl)) (by simp; omega)
  | v :: items, t, s, rest, frames, ht, hdepth, h, state, hstate, _ => by
      rw [SpellsItems] at ht
      rw [depthItems] at hdepth
      obtain ⟨w, text, w', hw, htext, hw', ⟨-, rfl⟩ | ⟨hne, tail, htail, rfl⟩⟩ := ht
      · have hend : Skips (.array .commaOrEnd :: frames) (w' ++ 93 :: s) rest :=
          h.step (skipStep_bracket hw' (by simp)) (by simp; omega)
        rw [List.append_assoc, List.append_assoc]
        exact .item hw htext (skips_value v htext (ends_mark hw' (by simp)) (by simp; omega) hend)
          hstate
      · have hmore : Skips (.array .value :: frames) (tail ++ 93 :: s) rest :=
          skips_items items htail (by omega) h (by simp) fun hnil => absurd hnil hne
        have hcomma : Skips (.array .commaOrEnd :: frames) (w' ++ 44 :: (tail ++ 93 :: s)) rest :=
          hmore.step (skipStep_comma hw') (by simp; omega)
        rw [List.append_assoc, List.append_assoc, List.append_assoc, List.cons_append]
        exact .item hw htext (skips_value v htext (ends_mark hw' (by simp)) (by simp; omega) hcomma)
          hstate

theorem skips_members : ∀ (fields : List (String × Json)) {t s rest : Bytes}
    {frames : List JsonFrame}, SpellsMembers StringText number fields t →
      frames.length + (depthFields fields + 1) ≤ goMaxJsonNestingDepth → Skips frames s rest →
        ∀ {state : ObjectState}, state = .keyOrEnd ∨ state = .key →
          (fields = [] → state = .keyOrEnd) →
            Skips (.object state :: frames) (t ++ 125 :: s) rest
  | [], t, s, rest, frames, ht, _, h, state, _, hnil => by
      simp only [SpellsMembers] at ht
      exact h.step (skipStep_brace ht (Or.inl (hnil rfl))) (by simp; omega)
  | (key, v) :: fields, t, s, rest, frames, ht, hdepth, h, state, hstate, _ => by
      rw [SpellsMembers] at ht
      rw [depthFields] at hdepth
      obtain ⟨w, k, w₁, w₂, text, w', hw, hk, hw₁, hw₂, htext, hw', ⟨-, rfl⟩ |
        ⟨hne, tail, htail, rfl⟩⟩ := ht
      · have hend : Skips (.object .commaOrEnd :: frames) (w' ++ 125 :: s) rest :=
          h.step (skipStep_brace hw' (Or.inr rfl)) (by simp; omega)
        have hv := skips_value v htext (ends_mark hw' (b := 125) (by simp)) (by simp; omega) hend
        simp only [List.append_assoc, List.cons_append]
        exact (Skips.member hw₂ htext hv).step (skipStep_key hw hk hw₁ hstate) (by simp; omega)
      · have hmore : Skips (.object .key :: frames) (tail ++ 125 :: s) rest :=
          skips_members fields htail (by omega) h (Or.inr rfl) fun hnil => absurd hnil hne
        have hcomma : Skips (.object .commaOrEnd :: frames) (w' ++ 44 :: (tail ++ 125 :: s)) rest :=
          hmore.step (skipStep_memberComma hw') (by simp; omega)
        have hv := skips_value v htext (ends_mark hw' (b := 44) (by simp)) (by simp; omega) hcomma
        simp only [List.append_assoc, List.cons_append]
        exact (Skips.member hw₂ htext hv).step (skipStep_key hw hk hw₁ hstate) (by simp; omega)

end

/-- The range of a value is its text. -/
theorem skipValue_spells {v : Json} {w t : Bytes} (hw : Blank w)
    (ht : Spells StringText number v t) (hs : Ends s) (hdepth : v.depth ≤ goMaxJsonNestingDepth) :
    skipValue (w ++ (t ++ s)) = some (t, s) := by
  have hvalue : SkipsValue [] (t ++ s) s :=
    skips_value v ht hs (by simpa using hdepth) (skips_nil s)
  obtain ⟨frames, s', hstart, -, hskips⟩ := hvalue
  unfold skipValue
  simp only [skipBlank_spells ht hw, hstart, hskips _ le_rfl, Option.map_some, consumed_append]

end Spells

end EraseMe.Identity.Secrets
