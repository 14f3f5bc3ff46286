import EraseMe.Identity.ProfileFilter
import EraseMe.Library.Fuel

/-!
# Every loop ends within the text

On any octets at all a cursor that moves on stays in the text (`Past`), so that what is sliced is
there, and more turns of a loop than there are octets change nothing.  A string that the normaliser
passes has the characters of `LooseChars` (`passes_of_normalizeJsonString`).
-/

namespace EraseMe.Identity.Secrets

open Json

theorem skipBlank_suffix (s : Bytes) : skipBlank s <:+ s := List.dropWhile_suffix _

theorem past_skipBlank {a s : Bytes} (h : Past a (skipBlank s)) : Past a s :=
  h.trans_suffix (skipBlank_suffix s)

/-! ### Slices -/

theorem hexQuad_length {s : Bytes} {n : ℕ} (h : hexQuad s = some n) : 4 ≤ s.length := by
  obtain ⟨a, b, d, e, r, rfl, -⟩ := hexQuad_eq_some h
  simp

theorem lowSurrogate_length {s : Bytes} {n : ℕ} (h : lowSurrogate s = some n) : 6 ≤ s.length := by
  obtain ⟨a, b, d, e, r, rfl, -⟩ := lowSurrogate_eq_some h
  simp

theorem validUtf8Width_length {s : Bytes} {n : ℕ} (h : validUtf8Width s = some n) :
    n ≠ 0 ∧ n ≤ s.length := by
  cases s with
  | nil => cases h
  | cons b s =>
    obtain ⟨c, hc⟩ := exists_next_of_validUtf8Width h
    have hle := Utf8.next_le (b :: s)
    have hpos := Utf8.next_pos b s
    rw [hc] at hle hpos
    exact ⟨Nat.one_le_iff_ne_zero.1 hpos, hle⟩

/-! ### Strings -/

theorem past_parseStringFrom {fuel : ℕ} {s rest : Bytes} (h : parseStringFrom fuel s = some rest) :
    Past rest s := by
  induction fuel generalizing s with
  | zero => cases h
  | succ fuel ih =>
    rw [parseStringFrom.eq_def] at h
    rcases s with _ | ⟨b, s⟩
    · cases h
    simp only at h
    split_ifs at h with hquote hbackslash hcontrol hascii
    · cases h
      exact .ofCons b _
    · rcases s with _ | ⟨e, s⟩
      · cases h
      simp only at h
      split_ifs at h with hunit hsimple
      · cases hquad : hexQuad s with
        | none =>
          rw [hquad] at h
          cases h
        | some n =>
          rw [hquad] at h
          exact ((ih h).of_drop.cons e).cons b
      · exact ((ih h).cons e).cons b
    · exact (ih h).cons b
    · cases hwidth : validUtf8Width (b :: s) with
      | none =>
        rw [hwidth] at h
        cases h
      | some n =>
        rw [hwidth] at h
        exact (ih h).of_drop

theorem past_parseString {s rest : Bytes} (h : parseString s = some rest) : Past rest s := by
  rcases s with _ | ⟨b, s⟩
  · cases h
  rw [parseString] at h
  split_ifs at h
  exact (past_parseStringFrom h).cons b

theorem parseStringFrom_stable {fuel : ℕ} {s : Bytes} (h : s.length ≤ fuel) :
    parseStringFrom fuel s = parseStringFrom s.length s := by
  refine Fuel.stable List.length parseStringFrom (fun k s hs => ?_) (fun k l s hs hturn => ?_) h
  · rw [List.length_eq_zero_iff.1 hs]
    cases k <;> rfl
  rcases s with _ | ⟨b, s⟩
  · exact absurd rfl hs
  rw [parseStringFrom.eq_def, parseStringFrom.eq_def (l + 1)]
  simp only
  split_ifs with hquote hbackslash hcontrol hascii
  · rfl
  · rcases s with _ | ⟨e, s⟩
    · rfl
    simp only
    split_ifs
    · cases hexQuad s with
      | none => rfl
      | some n => exact hturn _ (by simp; omega)
    · exact hturn _ (by simp)
    · rfl
  · rfl
  · exact hturn _ (by simp)
  · cases hwidth : validUtf8Width (b :: s) with
    | none => rfl
    | some n => exact hturn _ (Past.drop (validUtf8Width_length hwidth).1).2

/-- A string up to its closing quotation mark: its characters, and a strict text of them. -/
def Passes (s out rest : Bytes) : Prop :=
  ∃ cs body body', LooseChars cs body ∧ CharsText cs body' ∧ s = body ++ 34 :: rest ∧
    out = body' ++ [34]

theorem Passes.more {c : Char} {t t' s out rest : Bytes} (h : Passes s out rest)
    (hc : CharText c t') (hloose : ∀ cs body, s = body ++ 34 :: rest → LooseChars cs body →
      LooseChars (c :: cs) (t ++ body)) : Passes (t ++ s) (t' ++ out) rest := by
  obtain ⟨cs, body, body', hbody, hbody', rfl, rfl⟩ := h
  exact ⟨c :: cs, t ++ body, t' ++ body', hloose cs body rfl hbody, .cons hc hbody', by simp,
    by simp⟩

theorem hexQuad_lt {a b d e : UInt8} {n : ℕ} (h : hexQuad [a, b, d, e] = some n) : n < 65536 := by
  simp only [hexQuad, Option.bind_eq_bind, Option.bind_eq_some_iff, Option.some.injEq] at h
  obtain ⟨i, hi, j, hj, k, hk, l, hl, rfl⟩ := h
  have hi := hexValue_lt hi
  have hj := hexValue_lt hj
  have hk := hexValue_lt hk
  have hl := hexValue_lt hl
  omega

theorem exists_shortEscape {e : UInt8} (h : simpleEscape e = true) :
    ∃ c, shortEscape e = some c := by
  rw [simpleEscape, decide_eq_true_eq] at h
  have hall : ∀ e ∈ ([34, 92, 47, 98, 102, 110, 114, 116] : Bytes),
      (shortEscape e).isSome = true := by decide
  exact Option.isSome_iff_exists.1 (hall e h)

/-- A surrogate, with its partner or without. -/
theorem passes_unit {fuel : ℕ} {a b d e : UInt8} {n : ℕ} {s out rest : Bytes}
    (hquad : hexQuad [a, b, d, e] = some n)
    (ih : ∀ {s out : Bytes}, normalizeJsonString fuel s = some (out, rest) → Passes s out rest)
    (h : (if 55296 ≤ n ∧ n ≤ 56319 then
        if (lowSurrogate s).isSome then
          (normalizeJsonString fuel (s.drop 6)).map fun r =>
            (92 :: 117 :: a :: b :: d :: e :: s.take 6 ++ r.1, r.2)
        else (normalizeJsonString fuel s).map fun r => (unpaired ++ r.1, r.2)
      else if 56320 ≤ n ∧ n ≤ 57343 then
        (normalizeJsonString fuel s).map fun r => (unpaired ++ r.1, r.2)
      else (normalizeJsonString fuel s).map fun r =>
        ([92, 117, a, b, d, e] ++ r.1, r.2)) = some (out, rest)) :
    Passes (92 :: 117 :: a :: b :: d :: e :: s) out rest := by
  have hmark : CharText Utf8.replacement unpaired := .unit (by decide)
  have hlt := hexQuad_lt hquad
  split_ifs at h with hhigh hpair hlow
  · obtain ⟨⟨o, r⟩, hrun, hout⟩ := Option.map_eq_some_iff.1 h
    cases hout
    obtain ⟨low, hlow⟩ := Option.isSome_iff_exists.1 hpair
    obtain ⟨a', b', d', e', s, rfl, hquad', hrange⟩ := lowSurrogate_eq_some hlow
    have hc : (Char.ofNat (65536 + (n - 55296) * 1024 + (low - 56320))).toNat =
        65536 + (n - 55296) * 1024 + (low - 56320) := Utf8.toNat_ofNat_char (by omega)
    have hchar : CharText _ [92, 117, a, b, d, e, 92, 117, a', b', d', e'] :=
      .pair (c := Char.ofNat (65536 + (n - 55296) * 1024 + (low - 56320))) hquad hquad' (by omega)
        (by omega) (by omega)
    exact Passes.more (t := [92, 117, a, b, d, e, 92, 117, a', b', d', e']) (ih hrun) hchar
      fun cs body _ hbody => .char hchar hbody
  · obtain ⟨⟨o, r⟩, hrun, hout⟩ := Option.map_eq_some_iff.1 h
    cases hout
    refine Passes.more (t := [92, 117, a, b, d, e]) (ih hrun) hmark
      fun cs body hs hbody => .surrogate hquad (by omega) (fun _ => ?_) hbody
    have halone : lowSurrogate s = none := by simpa using hpair
    rw [hs, lowSurrogate_append hbody] at halone
    exact halone
  · obtain ⟨⟨o, r⟩, hrun, hout⟩ := Option.map_eq_some_iff.1 h
    cases hout
    exact Passes.more (t := [92, 117, a, b, d, e]) (ih hrun) hmark
      fun cs body _ hbody => .surrogate hquad (by omega) (by omega) hbody
  · obtain ⟨⟨o, r⟩, hrun, hout⟩ := Option.map_eq_some_iff.1 h
    cases hout
    have hc : (Char.ofNat n).toNat = n := Utf8.toNat_ofNat_char (by omega)
    have hchar : CharText (Char.ofNat n) [92, 117, a, b, d, e] := .unit (hc.symm ▸ hquad)
    exact Passes.more (t := [92, 117, a, b, d, e]) (ih hrun) hchar
      fun cs body _ hbody => .char hchar hbody

/-- What the normaliser passes of a string. -/
theorem passes_of_normalizeJsonString {fuel : ℕ} {s out rest : Bytes}
    (h : normalizeJsonString fuel s = some (out, rest)) : Passes s out rest := by
  induction fuel generalizing s out with
  | zero => cases h
  | succ fuel ih =>
    rw [normalizeJsonString.eq_def] at h
    rcases s with _ | ⟨b, s⟩
    · cases h
    simp only at h
    split_ifs at h with hquote hbackslash hcontrol hascii
    · cases h
      exact ⟨[], [], [], .nil, .nil, by rw [hquote]; rfl, rfl⟩
    · subst hbackslash
      rcases s with _ | ⟨e, s⟩
      · cases h
      simp only at h
      by_cases hunit : e = 117
      · rw [if_pos hunit] at h
        subst hunit
        cases hquad : hexQuad s with
        | none =>
          rw [hquad] at h
          cases h
        | some n =>
          rw [hquad] at h
          obtain ⟨a, b, d, e, s, rfl, hquad'⟩ := hexQuad_eq_some hquad
          exact passes_unit hquad' ih h
      rw [if_neg hunit] at h
      split_ifs at h with hsimple
      · obtain ⟨⟨o, r⟩, hrun, hout⟩ := Option.map_eq_some_iff.1 h
        cases hout
        obtain ⟨c, hc⟩ := exists_shortEscape hsimple
        exact Passes.more (t := [92, e]) (ih hrun) (.short hc)
          fun cs body _ hbody => .char (.short hc) hbody
    · obtain ⟨⟨o, r⟩, hrun, hout⟩ := Option.map_eq_some_iff.1 h
      cases hout
      have hchar := charText_ascii hascii (UInt8.not_lt.1 hcontrol) hquote hbackslash
      exact Passes.more (t := [b]) (ih hrun) hchar fun cs body _ hbody => .char hchar hbody
    · cases hwidth : validUtf8Width (b :: s) with
      | none =>
        rw [hwidth] at h
        obtain ⟨⟨o, r⟩, hrun, hout⟩ := Option.map_eq_some_iff.1 h
        cases hout
        have hmark : CharText Utf8.replacement [0xef, 0xbf, 0xbd] :=
          .plain (by decide) (by decide) (by decide)
        refine Passes.more (t := [b]) (ih hrun) hmark
          fun cs body hs hbody => .octet hascii ?_ hbody
        rw [hs, validUtf8Width_append] at hwidth
        show (Utf8.next (b :: body)).1 = none
        rcases hnext : Utf8.next (b :: body) with ⟨_ | c, n⟩
        · rfl
        · rw [validUtf8Width_of_next hascii hnext] at hwidth
          cases hwidth
      | some n =>
        rw [hwidth] at h
        obtain ⟨⟨o, r⟩, hrun, hout⟩ := Option.map_eq_some_iff.1 h
        cases hout
        obtain ⟨c, hnext⟩ := exists_next_of_validUtf8Width hwidth
        have hencode := Utf8.encode_of_next hnext
        have hlength : (String.utf8EncodeChar c).length = n := by
          have hnext' := Utf8.next_encode c ((b :: s).drop n)
          rw [← hencode, hnext] at hnext'
          cases hnext'
          rfl
        have htake : (b :: s).take n = String.utf8EncodeChar c := by
          rw [hencode]
          exact List.take_left' hlength
        have hc := Utf8.next_ge hascii hnext
        have hchar : CharText c (String.utf8EncodeChar c) := by
          refine .plain (by omega) ?_ ?_
          · rintro rfl
            exact absurd hc (by decide)
          · rintro rfl
            exact absurd hc (by decide)
        rw [htake, hencode]
        exact (ih hrun).more hchar fun cs body _ hbody => .char hchar hbody

theorem Passes.past {s out rest : Bytes} (h : Passes s out rest) : Past rest s := by
  obtain ⟨-, body, -, -, -, rfl, -⟩ := h
  exact (Past.ofCons 34 rest).trans_suffix (List.suffix_append body _)

theorem normalizeJsonString_stable {fuel : ℕ} {s : Bytes} (h : s.length ≤ fuel) :
    normalizeJsonString fuel s = normalizeJsonString s.length s := by
  refine Fuel.stable List.length normalizeJsonString (fun k s hs => ?_)
    (fun k l s hs hturn => ?_) h
  · rw [List.length_eq_zero_iff.1 hs]
    cases k <;> rfl
  rcases s with _ | ⟨b, s⟩
  · exact absurd rfl hs
  rw [normalizeJsonString.eq_def, normalizeJsonString.eq_def (l + 1)]
  simp only
  by_cases hquote : b = 34
  · rw [if_pos hquote, if_pos hquote]
  rw [if_neg hquote, if_neg hquote]
  by_cases hbackslash : b = 92
  · rw [if_pos hbackslash, if_pos hbackslash]
    rcases s with _ | ⟨e, s⟩
    · rfl
    simp only
    rw [hturn (s.drop 4) (by simp; omega), hturn (s.drop 10) (by simp; omega),
      hturn s (by simp)]
  rw [if_neg hbackslash, if_neg hbackslash, hturn s (by simp)]
  cases hwidth : validUtf8Width (b :: s) with
  | none => rfl
  | some n => simp only [hturn _ (Past.drop (s := s) (validUtf8Width_length hwidth).1).2]

theorem normalizeFrom_stable {fuel depth : ℕ} {s : Bytes} (h : s.length ≤ fuel) :
    normalizeFrom fuel depth s = normalizeFrom s.length depth s := by
  refine Fuel.stable (σ := ℕ × Bytes) (fun x => x.2.length)
    (fun fuel x => normalizeFrom fuel x.1 x.2) (fun k x hx => ?_) (fun k l x hx hturn => ?_) (x := (depth, s)) h
  · obtain ⟨depth, s⟩ := x
    obtain rfl := List.length_eq_zero_iff.1 hx
    cases k <;> rfl
  obtain ⟨depth, _ | ⟨b, s⟩⟩ := x
  · exact absurd rfl hx
  have hrest (depth : ℕ) : normalizeFrom k depth s = normalizeFrom l depth s :=
    hturn (depth, s) (by simp)
  simp only [normalizeFrom, hrest]
  cases hstring : normalizeJsonString s.length s with
  | none => rfl
  | some r =>
    obtain ⟨out, rest⟩ := r
    have hlt := ((passes_of_normalizeJsonString hstring).past.cons b).2
    simp only [show normalizeFrom k depth rest = normalizeFrom l depth rest from
      hturn (depth, rest) hlt]

/-! ### Numbers and values -/

theorem parseLiteral_eq_some {literal : String} {s rest : Bytes}
    (h : parseLiteral literal s = some rest) : s = Utf8.encode literal ++ rest := by
  rw [parseLiteral] at h
  split_ifs at h with hmark
  cases h
  exact (List.prefix_iff_eq_append.1 (List.isPrefixOf_iff_prefix.1 hmark)).symm

theorem past_parseLiteral {literal : String} {s rest : Bytes} (hne : Utf8.encode literal ≠ [])
    (h : parseLiteral literal s = some rest) : Past rest s := by
  rw [parseLiteral_eq_some h]
  refine ⟨List.suffix_append _ _, ?_⟩
  have hpos := List.length_pos_of_ne_nil hne
  rw [List.length_append]
  omega

theorem past_parseDigits {s rest : Bytes} (h : parseDigits s = some rest) : Past rest s := by
  unfold parseDigits at h
  simp only at h
  split_ifs at h with hlength
  cases h
  have hsuffix : s.dropWhile isDigit <:+ s := List.dropWhile_suffix _
  exact ⟨hsuffix, lt_of_le_of_ne hsuffix.length_le hlength⟩

theorem past_parseInteger {s rest : Bytes} (h : parseInteger s = some rest) : Past rest s := by
  rcases s with _ | ⟨b, s⟩
  · cases h
  rw [parseInteger] at h
  split_ifs at h
  · cases h
    exact .ofCons b _
  · cases h
    exact .of_suffix (List.dropWhile_suffix _) (.ofCons b s)

theorem suffix_parseFraction {s rest : Bytes} (h : parseFraction s = some rest) : rest <:+ s := by
  rw [parseFraction] at h
  split_ifs at h
  · exact (past_parseDigits h).1.trans (List.tail_suffix s)
  · cases h
    exact List.suffix_rfl

theorem suffix_parseExponent {s rest : Bytes} (h : parseExponent s = some rest) : rest <:+ s := by
  unfold parseExponent at h
  split_ifs at h
  · refine (past_parseDigits h).1.trans ?_
    split_ifs
    · exact (List.tail_suffix _).trans (List.tail_suffix s)
    · exact List.tail_suffix s
  · cases h
    exact List.suffix_rfl

theorem past_parseNumber {s rest : Bytes} (h : parseNumber s = some rest) : Past rest s := by
  rw [parseNumber] at h
  obtain ⟨hparts, -⟩ := Option.filter_eq_some_iff.1 h
  obtain ⟨s₁, hinteger, hparts⟩ := Option.bind_eq_some_iff.1 hparts
  obtain ⟨s₂, hfraction, hexponent⟩ := Option.bind_eq_some_iff.1 hparts
  have hpast := Past.of_suffix ((suffix_parseExponent hexponent).trans
    (suffix_parseFraction hfraction)) (past_parseInteger hinteger)
  refine hpast.trans_suffix ?_
  split_ifs
  · exact List.tail_suffix s
  · exact List.suffix_rfl

theorem past_startValue {frames frames' : List JsonFrame} {s rest : Bytes}
    (h : startValue frames s = some (frames', rest)) : Past rest s := by
  unfold startValue at h
  refine past_skipBlank ?_
  generalize skipBlank s = s at h
  simp only at h
  cases hhead : s.head? with
  | none =>
    rw [hhead] at h
    cases h
  | some b =>
    rw [hhead] at h
    simp only at h
    split_ifs at h
    · obtain ⟨r, hr, hrest⟩ := Option.map_eq_some_iff.1 h
      cases hrest
      exact past_parseString hr
    · cases h
      exact .tail hhead
    · cases h
      exact .tail hhead
    · obtain ⟨r, hr, hrest⟩ := Option.map_eq_some_iff.1 h
      cases hrest
      exact past_parseLiteral (by decide) hr
    · obtain ⟨r, hr, hrest⟩ := Option.map_eq_some_iff.1 h
      cases hrest
      exact past_parseLiteral (by decide) hr
    · obtain ⟨r, hr, hrest⟩ := Option.map_eq_some_iff.1 h
      cases hrest
      exact past_parseLiteral (by decide) hr
    · obtain ⟨r, hr, hrest⟩ := Option.map_eq_some_iff.1 h
      cases hrest
      exact past_parseNumber hr

theorem past_parseKey {s rest : Bytes} (h : parseKey s = some rest) : Past rest s := by
  rw [parseKey] at h
  obtain ⟨r, hr, hrest⟩ := Option.bind_eq_some_iff.1 h
  split_ifs at hrest with hcolon
  cases hrest
  exact (past_skipBlank (.tail hcolon)).trans (past_parseString hr)

/-- Every turn of the loop moves the cursor on. -/
theorem past_skipStep {frame : JsonFrame} {frames frames' : List JsonFrame} {s rest : Bytes}
    (h : skipStep frame frames s = some (frames', rest)) : Past rest s := by
  have hmark {b : UInt8} {r : List JsonFrame} (hb : (skipBlank s).head? = some b)
      (h : some (r, (skipBlank s).tail) = some (frames', rest)) : Past rest s := by
    cases h
    exact past_skipBlank (.tail hb)
  have hkey (h : (parseKey (skipBlank s)).map (fun rest =>
      (JsonFrame.object .value :: frames, rest)) = some (frames', rest)) : Past rest s := by
    obtain ⟨r, hr, hrest⟩ := Option.map_eq_some_iff.1 h
    cases hrest
    exact past_skipBlank (past_parseKey hr)
  rcases frame with (_ | _ | _) | (_ | _ | _ | _)
  all_goals
    rw [skipStep] at h
  · split_ifs at h with hb
    · exact hmark hb h
    · exact past_skipBlank (past_startValue h)
  · split_ifs at h with hb
    exact past_skipBlank (past_startValue h)
  · split_ifs at h with hcomma hb
    · exact hmark hcomma h
    · exact hmark hb h
  · split_ifs at h with hb
    · exact hmark hb h
    · exact hkey h
  · split_ifs at h with hb
    exact hkey h
  · exact past_startValue h
  · split_ifs at h with hcomma hb
    · exact hmark hcomma h
    · exact hmark hb h

theorem skipLoop_stable {fuel : ℕ} {frames : List JsonFrame} {s : Bytes} (h : s.length ≤ fuel) :
    skipLoop fuel frames s = skipLoop s.length frames s := by
  refine Fuel.stable (σ := List JsonFrame × Bytes) (fun x => x.2.length)
    (fun fuel x => skipLoop fuel x.1 x.2) (fun k x hx => ?_) (fun k l x hx hturn => ?_)
    (x := (frames, s)) h
  · obtain ⟨frames, s⟩ := x
    obtain rfl := List.length_eq_zero_iff.1 hx
    rcases frames with _ | ⟨frame, frames⟩
    · cases k <;> rfl
    cases k with
    | zero => rfl
    | succ k =>
      simp only [skipLoop]
      cases hstep : skipStep frame frames [] with
      | none => rfl
      | some r => exact absurd (past_skipStep hstep).2 (Nat.not_lt_zero _)
  · obtain ⟨frames, s⟩ := x
    rcases frames with _ | ⟨frame, frames⟩
    · rfl
    simp only [skipLoop]
    cases hstep : skipStep frame frames s with
    | none => rfl
    | some r => exact hturn r (past_skipStep hstep).2

theorem suffix_skipLoop {fuel : ℕ} {frames : List JsonFrame} {s rest : Bytes}
    (h : skipLoop fuel frames s = some rest) : rest <:+ s := by
  induction fuel generalizing frames s with
  | zero =>
    rcases frames with _ | ⟨frame, frames⟩
    · cases h
      exact List.suffix_rfl
    · cases h
  | succ fuel ih =>
    rcases frames with _ | ⟨frame, frames⟩
    · cases h
      exact List.suffix_rfl
    rw [skipLoop] at h
    cases hstep : skipStep frame frames s with
    | none =>
      rw [hstep] at h
      cases h
    | some r =>
      rw [hstep] at h
      exact (ih h).trans (past_skipStep hstep).1

theorem consumed_append_of_suffix {s rest : Bytes} (h : rest <:+ s) :
    consumed s rest ++ rest = s := by
  obtain ⟨t, rfl⟩ := h
  rw [consumed_append]

/-- A range lies between where the value starts and where the cursor is left. -/
theorem skipValue_eq_some {s range rest : Bytes} (h : skipValue s = some (range, rest)) :
    skipBlank s = range ++ rest ∧ range ≠ [] := by
  unfold skipValue at h
  simp only at h
  cases hstart : startValue [] (skipBlank s) with
  | none =>
    rw [hstart] at h
    cases h
  | some r =>
    obtain ⟨frames, r⟩ := r
    rw [hstart] at h
    obtain ⟨rest', hloop, hrange⟩ := Option.map_eq_some_iff.1 h
    cases hrange
    have hpast := Past.of_suffix (suffix_skipLoop hloop) (past_startValue hstart)
    have happend := consumed_append_of_suffix hpast.1
    refine ⟨happend.symm, fun hnil => ?_⟩
    have hlt := hpast.2
    rw [hnil, List.nil_append] at happend
    rw [← happend] at hlt
    exact absurd hlt (lt_irrefl _)

theorem past_skipValue {s range rest : Bytes} (h : skipValue s = some (range, rest)) :
    Past rest s := by
  obtain ⟨hskip, hne⟩ := skipValue_eq_some h
  refine past_skipBlank ?_
  rw [hskip]
  have hpos := List.length_pos_of_ne_nil hne
  refine ⟨List.suffix_append _ _, ?_⟩
  rw [List.length_append]
  omega

theorem past_skipNull {s rest : Bytes} (h : skipNull s = some rest) : Past rest s := by
  rw [skipNull] at h
  cases hskip : skipValue s with
  | none =>
    rw [hskip] at h
    cases h
  | some r =>
    rw [hskip] at h
    simp only at h
    split_ifs at h
    cases h
    exact past_skipValue hskip

theorem past_parseOptionalString {s rest : Bytes} (h : parseOptionalString s = some rest) :
    Past rest s := by
  rw [parseOptionalString] at h
  split_ifs at h
  · exact past_parseString h
  · exact past_skipNull h

theorem validateStrings_stable {fuel : ℕ} {s : Bytes} (h : s.length ≤ fuel) :
    validateStrings fuel s = validateStrings s.length s := by
  refine Fuel.stable List.length validateStrings (fun k s hs => ?_) (fun k l s hs hturn => ?_) h
  · obtain rfl := List.length_eq_zero_iff.1 hs
    cases k <;> rfl
  simp only [validateStrings]
  cases hstring : parseOptionalString (skipBlank s) with
  | none => rfl
  | some r =>
    simp only
    have hpast := past_skipBlank (past_parseOptionalString hstring)
    cases hskip : skipBlank r with
    | nil => rfl
    | cons b r' =>
      have hlt := ((Past.ofCons b r').trans_suffix (hskip ▸ skipBlank_suffix r)).trans hpast
      simp only [hturn r' hlt.2]

/-! ### The filter -/

/-- The functions of the filter. -/
inductive Part
  | members (address hasField : Bool)
  | object (address : Bool)
  | addresses (first : Bool)
  | array

section Filter

variable (serde : SerdeJson)

/-- Reduce one part. -/
def Part.reduce (fuel : ℕ) : Part → Bytes → Option (Bytes × Bytes)
  | .members address hasField => reduceMembers serde fuel address hasField
  | .object address => reduceObject serde fuel address
  | .addresses first => reduceAddresses serde fuel first
  | .array => reduceAddressArray serde fuel

variable {serde}

theorem past_reduceSimple (kind : ProfileFieldKind) {s out rest : Bytes}
    (h : reduceSimple kind s = some (out, rest)) : Past rest s := by
  rw [reduceSimple] at h
  exact past_skipValue (Option.filter_eq_some_iff.1 h).1

theorem past_mark {b : UInt8} {r s : Bytes} (h : skipBlank s = b :: r) : Past r s :=
  past_skipBlank (h ▸ .ofCons b r)

/-- The value of a member, whichever kind it is of. -/
theorem past_reduceMember {fuel : ℕ} (harray : ∀ {s out rest : Bytes},
      reduceAddressArray serde fuel s = some (out, rest) → Past rest s)
    {kind : Option ProfileFieldKind} {s out rest : Bytes}
    (h : reduceMember serde fuel kind s = some (out, rest)) : Past rest s := by
  rcases kind with _ | kind
  · exact past_skipValue h
  · cases kind with
    | addresses => exact harray h
    | scalar => exact past_reduceSimple .scalar h
    | optional => exact past_reduceSimple .optional h
    | strings => exact past_reduceSimple .strings h

theorem past_afterMember {fuel : ℕ} {address hasField field : Bool} {head s out rest : Bytes}
    (hmembers : ∀ {address hasField s out rest},
      reduceMembers serde fuel address hasField s = some (out, rest) → Past rest s)
    (h : afterMember serde fuel address hasField field head s = some (out, rest)) :
    Past rest s := by
  unfold afterMember at h
  cases hskip : skipBlank s with
  | nil =>
    rw [hskip] at h
    cases h
  | cons b r =>
    rw [hskip] at h
    simp only at h
    split_ifs at h
    · obtain ⟨⟨o, q⟩, hrun, hout⟩ := Option.map_eq_some_iff.1 h
      cases hout
      exact (hmembers hrun).trans (past_mark hskip)
    · cases h
      exact past_mark hskip

theorem past_afterAddress {fuel : ℕ} {head s out rest : Bytes}
    (haddresses : ∀ {first s out rest},
      reduceAddresses serde fuel first s = some (out, rest) → Past rest s)
    (h : afterAddress serde fuel head s = some (out, rest)) : Past rest s := by
  unfold afterAddress at h
  cases hskip : skipBlank s with
  | nil =>
    rw [hskip] at h
    cases h
  | cons b r =>
    rw [hskip] at h
    simp only at h
    split_ifs at h
    · obtain ⟨⟨o, q⟩, hrun, hout⟩ := Option.map_eq_some_iff.1 h
      cases hout
      exact (haddresses hrun).trans (past_mark hskip)
    · cases h
      exact past_mark hskip

/-- The range of `null`. -/
theorem past_null {s out rest : Bytes}
    (h : (skipNull s).map (fun rest => (Utf8.encode "null", rest)) = some (out, rest)) :
    Past rest s := by
  obtain ⟨r, hr, hrest⟩ := Option.map_eq_some_iff.1 h
  cases hrest
  exact past_skipNull hr

/-- No function of the filter leaves the text. -/
theorem past_reduce (fuel : ℕ) (part : Part) {s out rest : Bytes}
    (h : part.reduce serde fuel s = some (out, rest)) : Past rest s := by
  induction fuel generalizing part s out rest with
  | zero => cases part <;> cases h
  | succ fuel ih =>
    have hmembers {address hasField s out rest}
        (h : reduceMembers serde fuel address hasField s = some (out, rest)) : Past rest s :=
      ih (.members address hasField) h
    have hobject {address s out rest}
        (h : reduceObject serde fuel address s = some (out, rest)) : Past rest s :=
      ih (.object address) h
    have haddresses {first s out rest}
        (h : reduceAddresses serde fuel first s = some (out, rest)) : Past rest s :=
      ih (.addresses first) h
    cases part with
    | members address hasField =>
      rw [Part.reduce, reduceMembers_succ] at h
      obtain ⟨r, hr, h⟩ := Option.bind_eq_some_iff.1 h
      obtain ⟨name, -, h⟩ := Option.bind_eq_some_iff.1 h
      simp only [Option.ite_none_right_eq_some] at h
      obtain ⟨hcolon, h⟩ := h
      obtain ⟨⟨value, q⟩, hvalue, h⟩ := Option.bind_eq_some_iff.1 h
      have hmember := past_reduceMember (fun h => ih .array h) hvalue
      exact (past_afterMember hmembers h).trans (hmember.trans
        ((past_skipBlank (.tail hcolon)).trans (past_skipBlank (past_parseString hr))))
    | object address =>
      rw [Part.reduce, reduceObject] at h
      split_ifs at h with hbrace hclose
      · cases h
        exact (past_skipBlank (.tail hclose)).trans_suffix (List.tail_suffix s)
      · obtain ⟨⟨o, q⟩, hrun, hout⟩ := Option.map_eq_some_iff.1 h
        cases hout
        exact (past_skipBlank (hmembers hrun)).trans_suffix (List.tail_suffix s)
    | addresses first =>
      rw [Part.reduce, reduceAddresses_succ] at h
      obtain ⟨⟨item, q⟩, hitem, h⟩ := Option.bind_eq_some_iff.1 h
      refine (past_afterAddress haddresses h).trans (past_skipBlank ?_)
      rw [reduceAddress] at hitem
      split_ifs at hitem
      · exact hobject hitem
      · exact past_null hitem
    | array =>
      rw [Part.reduce, reduceAddressArray] at h
      split_ifs at h with hnull hbracket hclose
      · exact past_skipBlank (past_null h)
      · cases h
        exact past_skipBlank ((past_skipBlank (.tail hclose)).trans_suffix (List.tail_suffix _))
      · obtain ⟨⟨o, q⟩, hrun, hout⟩ := Option.map_eq_some_iff.1 h
        cases hout
        exact past_skipBlank
          ((past_skipBlank (haddresses hrun)).trans_suffix (List.tail_suffix _))

/-- How much a function of the filter may still have to do. -/
def Part.left (s : Bytes) : Part → ℕ
  | .members _ _ => 2 * s.length + 1
  | .object _ => 2 * s.length + 1
  | .addresses _ => 2 * s.length + 2
  | .array => 2 * s.length + 2

section Stable

variable {k l : ℕ} {s : Bytes}

theorem reduceMember_congr (harray : reduceAddressArray serde k s = reduceAddressArray serde l s)
    (kind : Option ProfileFieldKind) :
    reduceMember serde k kind s = reduceMember serde l kind s := by
  rcases kind with _ | kind
  · rfl
  · cases kind with
    | addresses => exact harray
    | _ => rfl

theorem afterMember_congr {address hasField field : Bool} {head : Bytes}
    (hmembers : ∀ {hasField r}, Past r s →
      reduceMembers serde k address hasField r = reduceMembers serde l address hasField r) :
    afterMember serde k address hasField field head s =
      afterMember serde l address hasField field head s := by
  unfold afterMember
  cases hskip : skipBlank s with
  | nil => rfl
  | cons b r => simp only [hmembers (past_mark hskip)]

theorem afterAddress_congr {head : Bytes} (haddresses : ∀ {r}, Past r s →
      reduceAddresses serde k false r = reduceAddresses serde l false r) :
    afterAddress serde k head s = afterAddress serde l head s := by
  unfold afterAddress
  cases hskip : skipBlank s with
  | nil => rfl
  | cons b r => simp only [haddresses (past_mark hskip)]

end Stable

/-- The filter has come to its end after as many turns as there may be something left to do. -/
theorem reduce_stable {fuel : ℕ} {part : Part} {s : Bytes} (h : part.left s ≤ fuel) :
    part.reduce serde fuel s = part.reduce serde (part.left s) s := by
  refine Fuel.stable (σ := Part × Bytes) (fun x => x.1.left x.2)
    (fun fuel x => x.1.reduce serde fuel x.2) (fun k x hx => ?_) (fun k l x _ hturn => ?_)
    (x := (part, s)) h
  · obtain ⟨part, s⟩ := x
    cases part <;> simp [Part.left] at hx
  obtain ⟨part, s⟩ := x
  have hturn (next : Part) (r : Bytes) (hlt : next.left r < part.left s) :
      next.reduce serde k r = next.reduce serde l r := hturn (next, r) hlt
  have hblank (r : Bytes) : (skipBlank r).length ≤ r.length := (skipBlank_suffix r).length_le
  simp only
  cases part with
  | members address hasField =>
    simp only [Part.reduce, reduceMembers_succ]
    cases hkey : parseString (skipBlank s) with
    | none => rfl
    | some rest =>
      have hrest := past_skipBlank (past_parseString hkey)
      simp only [Option.bind_some]
      cases decodeName serde (consumed (skipBlank s) rest) with
      | none => rfl
      | some name =>
        simp only [Option.bind_some]
        by_cases hcolon : (skipBlank rest).head? = some 58
        · have htail := (past_skipBlank (.tail hcolon)).trans hrest
          have hvalue := reduceMember_congr (k := k) (l := l)
            (hturn .array (skipBlank rest).tail (by have := htail.2; simp only [Part.left]; omega))
            (profileFieldKind name address)
          rw [if_pos hcolon, if_pos hcolon, hvalue]
          cases hmember : reduceMember serde l (profileFieldKind name address)
              (skipBlank rest).tail with
          | none => rfl
          | some q =>
            obtain ⟨value, q⟩ := q
            have hpast := (past_reduceMember (fun h => past_reduce l .array h) hmember).trans htail
            refine afterMember_congr fun {hasField r} hr => ?_
            exact hturn (.members address hasField) r (by
              have := (hr.trans hpast).2
              simp only [Part.left]
              omega)
        · rw [if_neg hcolon, if_neg hcolon]
  | object address =>
    simp only [Part.reduce, reduceObject]
    by_cases hbrace : s.head? = some 123
    · have htail := (Past.tail hbrace).2
      have hle := hblank s.tail
      have hmembers : reduceMembers serde k address false (skipBlank s.tail) =
          reduceMembers serde l address false (skipBlank s.tail) :=
        hturn (.members address false) (skipBlank s.tail) (by simp only [Part.left]; omega)
      rw [hmembers]
    · rw [if_pos hbrace, if_pos hbrace]
  | addresses first =>
    simp only [Part.reduce, reduceAddresses_succ]
    have hle := hblank s
    have hobject : reduceObject serde k true (skipBlank s) =
        reduceObject serde l true (skipBlank s) :=
      hturn (.object true) (skipBlank s) (by simp only [Part.left]; omega)
    have hitem : reduceAddress serde k (skipBlank s) = reduceAddress serde l (skipBlank s) := by
      rw [reduceAddress, reduceAddress, hobject]
    rw [hitem]
    cases hrun : reduceAddress serde l (skipBlank s) with
    | none => rfl
    | some q =>
      obtain ⟨item, q⟩ := q
      have hpast : Past q s := by
        refine past_skipBlank ?_
        rw [reduceAddress] at hrun
        split_ifs at hrun
        · exact past_reduce l (.object true) hrun
        · exact past_null hrun
      refine afterAddress_congr fun {r} hr => ?_
      exact hturn (.addresses false) r (by
        have := (hr.trans hpast).2
        simp only [Part.left]
        omega)
  | array =>
    simp only [Part.reduce, reduceAddressArray]
    by_cases hbracket : (skipBlank s).head? = some 91
    · have htail := (Past.tail hbracket).2
      have hle := hblank s
      have hle' := hblank (skipBlank s).tail
      have haddresses : reduceAddresses serde k true (skipBlank (skipBlank s).tail) =
          reduceAddresses serde l true (skipBlank (skipBlank s).tail) :=
        hturn (.addresses true) (skipBlank (skipBlank s).tail)
          (by simp only [Part.left]; omega)
      rw [haddresses]
    · simp only [ne_eq, hbracket, not_false_eq_true, if_true]

end Filter

end EraseMe.Identity.Secrets
