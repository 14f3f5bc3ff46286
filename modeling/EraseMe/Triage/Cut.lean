import EraseMe.Redaction.Cut
import EraseMe.Triage.Prompts

/-!
# Texts that are cut before they are redacted

The prompts cut a text at a number of octets and redact what is left.  A value of the profile that
begins before the cut and ends after it is not found in the part, and its beginning stays in the
prompt (`not_cutSafe_straddling`).  Where no value lies across the cut and the rules find in the part
what they find in the whole text, cut short, the redaction is as strong as that of the whole text
(`cutSafe_of_apart`).
-/

namespace EraseMe.Triage

open Intervals Redaction Utf8

/-- The octet is in a span that is replaced. -/
def Replaced (engine : Engine) (input : Bytes) (profile : Option RedactionProfile) (i : ℕ) : Prop :=
  ∃ accepted, collectMatches engine input profile = .ok accepted ∧ Covered accepted i

/-- When the whole text can be redacted, the part before the cut can, and each of its octets that
the redaction of the whole text replaces is replaced in it. -/
def CutSafe (engine : Engine) (profile : Option RedactionProfile) (limit : ℕ) (text : String) :
    Prop :=
  ∀ whole, redactBytes engine (encode text) profile = .ok whole →
    (∃ part, redactBytes engine (cutBytes (encode text) limit) profile = .ok part) ∧
      ∀ i < limit, Replaced engine (encode text) profile i →
        Replaced engine (cutBytes (encode text) limit) profile i

/-- A search for a literal looks from the left and goes on behind what it found, and every match has
as many characters as the literal: in a text that is cut it finds what it finds before the cut.
Without ASCII its matches end between characters. -/
structure LiteralSearch (engine : Engine) : Prop where
  ascii : ∀ value search, engine.asciiLiteral value = some search → ∀ s t,
    spansFound search s = (spansFound search (s ++ t)).filter fun span => span.2 ≤ s.length
  text : ∀ value search, engine.textLiteral value = some search → ∀ s t,
    spansFound search (encode (String.ofList s)) =
      (spansFound search (encode (String.ofList (s ++ t)))).filter fun span =>
        span.2 ≤ (encode (String.ofList s)).length
  boundary : ∀ value search, engine.textLiteral value = some search → ∀ s,
    ∀ span ∈ spansFound search (encode (String.ofList s)),
      ∃ s' t', s = s' ++ t' ∧ span.2 = (encode (String.ofList s')).length

/-- No value of the profile lies across the cut, and the rules find in the part what they find in
the text, cut short. -/
structure CutApart (engine : Engine) (profile : Option RedactionProfile) (limit : ℕ)
    (text : String) : Prop where
  values : ∀ value ∈ valuesOf profile, ∀ span ∈ occurrences engine (encode text) value,
    ¬ (span.1 < limit ∧ limit < span.2)
  rules : ∀ rule ∈ builtinRules, ruleSpans engine (cutBytes (encode text) limit) rule =
    clip limit (ruleSpans engine (encode text) rule)

/-! ### The part of a text -/

theorem cutBytes_of_le {value : Bytes} {limit : ℕ} (h : value.length ≤ limit) :
    cutBytes value limit = value := by
  rw [cutBytes, min_eq_left h, List.take_length]

theorem cutBytes_of_lt {value : Bytes} {limit : ℕ} (h : limit < value.length) :
    cutBytes value limit = value.take limit := by
  rw [cutBytes, min_eq_right h.le]

/-- The characters before a part of one are well-formed. -/
theorem validUpTo_encode_append {r : Bytes} (hr : (next r).1 = none) (cs : List Char) (fuel : ℕ)
    (hfuel : (encode (String.ofList cs)).length ≤ fuel) :
    validUpTo fuel (encode (String.ofList cs) ++ r) = (encode (String.ofList cs)).length := by
  induction cs generalizing fuel with
  | nil =>
    show validUpTo fuel r = 0
    cases fuel with
    | zero => rfl
    | succ fuel =>
      rw [validUpTo]
      cases hnext : next r with
      | mk c n =>
        rw [hnext] at hr
        obtain rfl : c = none := hr
        rfl
  | cons c cs ih =>
    have hpos := List.length_pos_iff.2 (encodeChar_ne_nil c)
    rw [encode_ofList_cons, List.length_append] at hfuel
    obtain ⟨f, rfl⟩ : ∃ f, fuel = f + 1 := ⟨fuel - 1, by omega⟩
    rw [encode_ofList_cons, List.append_assoc, validUpTo, next_encode]
    simp only [List.drop_left, List.length_append]
    rw [ih f (by omega)]

/-- The part before the cut has one well-formed part, the characters before it. -/
theorem textParts_encode_append (cs : List Char) {r : Bytes} (hr : next r = (none, r.length))
    (hne : encode (String.ofList cs) ++ r ≠ []) (fuel : ℕ) :
    textParts (encode (String.ofList cs) ++ r) (fuel + 1) 0 = [(0, encode (String.ofList cs))] := by
  have hvalid := validUpTo_encode_append (r := r) (by rw [hr]) cs
    (encode (String.ofList cs) ++ r).length (by simp)
  have hpos := List.length_pos_iff.2 hne
  rw [textParts, if_neg (by omega)]
  simp only [List.drop_zero, hvalid, List.take_left', List.drop_left, hr, zero_add]
  congr 1
  split_ifs with hall
  · rfl
  · rw [List.length_append] at hall
    have hend : min ((encode (String.ofList cs)).length + max r.length 1)
        (encode (String.ofList cs) ++ r).length = (encode (String.ofList cs) ++ r).length := by
      rw [List.length_append]
      omega
    rw [hend]
    cases fuel with
    | zero => rfl
    | succ fuel => rw [textParts, if_pos le_rfl]

/-- What is found in a well-formed part at the start. -/
theorem flatMap_singleton_spans (search : (text : Bytes) → List (Span text.length)) (part : Bytes) :
    ([(0, part)] : List (ℕ × Bytes)).flatMap (fun part =>
      (search part.2).map fun span => (part.1 + span.start, part.1 + span.stop)) =
        spansFound search part := by
  simp [spansFound]

/-- A boundary between characters that is not behind the cut is not behind the last character
before it. -/
theorem boundary_le {s t s' t' : List Char} {n : ℕ} (heq : s ++ t = s' ++ t')
    (ht : ∀ c ∈ t.head?, n < (encode (String.ofList s)).length + (String.utf8EncodeChar c).length)
    (hn : (encode (String.ofList s')).length ≤ n) :
    (encode (String.ofList s')).length ≤ (encode (String.ofList s)).length := by
  rcases List.append_eq_append_iff.1 heq with ⟨a, rfl, rfl⟩ | ⟨a, rfl, rfl⟩
  · cases a with
    | nil => rw [List.append_nil]
    | cons c a =>
      have hlate := ht c rfl
      rw [encode_ofList_append, encode_ofList_cons, List.length_append, List.length_append] at hn
      omega
  · rw [encode_ofList_append, List.length_append]
    exact Nat.le_add_right _ _

theorem occurrences_nil (engine : Engine) (value : String) : occurrences engine [] value = [] := by
  have hnone (search : (text : Bytes) → List (Span text.length)) : spansFound search [] = [] := by
    refine List.eq_nil_iff_forall_not_mem.2 fun span hspan => ?_
    have hlt := lt_of_mem_spansFound hspan
    simp only [List.length_nil] at hlt
    omega
  unfold occurrences
  split_ifs
  · rfl
  · cases engine.asciiLiteral value with
    | none => rfl
    | some search => exact hnone search
  · cases engine.textLiteral value <;> rfl

section Cut

variable {engine : Engine} (laws : LiteralSearch engine)

include laws

/-- In the part before the cut a value with other characters than ASCII occurs where it occurs in
the text before the cut. -/
theorem textOccurrences_take {value : String} {search : (text : Bytes) → List (Span text.length)}
    (hsearch : engine.textLiteral value = some search) (cs : List Char) {n : ℕ}
    (hpos : 0 < n) (hn : n ≤ (encode (String.ofList cs)).length) :
    (textParts ((encode (String.ofList cs)).take n) (n + 1) 0).flatMap (fun part =>
        (search part.2).map fun span => (part.1 + span.start, part.1 + span.stop)) =
      (spansFound search (encode (String.ofList cs))).filter fun span => span.2 ≤ n := by
  obtain ⟨s, t, r, rfl, htake, hnext, ht⟩ := exists_take_encode cs n hn
  have hlength := congrArg List.length htake
  rw [List.length_take, min_eq_left hn, List.length_append] at hlength
  have hne : encode (String.ofList s) ++ r ≠ [] := by
    rw [← List.length_pos_iff, List.length_append]
    omega
  rw [htake, textParts_encode_append s hnext hne, flatMap_singleton_spans,
    laws.text value search hsearch s t]
  refine List.filter_congr fun span hspan => ?_
  obtain ⟨s', t', heq, hstop⟩ := laws.boundary value search hsearch (s ++ t) span hspan
  have hiff : span.2 ≤ (encode (String.ofList s)).length ↔ span.2 ≤ n := by
    rw [hstop]
    exact ⟨fun h => by omega, boundary_le heq ht⟩
  simp only [hiff]

/-- In the part before the cut a value occurs where it occurs in the text before the cut. -/
theorem occurrences_take {text : String} {n : ℕ} (hn : n ≤ (encode text).length) (value : String) :
    occurrences engine ((encode text).take n) value =
      (occurrences engine (encode text) value).filter fun span => span.2 ≤ n := by
  rcases Nat.eq_zero_or_pos n with rfl | hpos
  · -- nothing ends before the first octet
    have hnone : ∀ span ∈ occurrences engine (encode text) value, ¬ span.2 ≤ 0 := fun span hspan =>
      not_le.2 (Nat.zero_lt_of_lt (lt_of_mem_occurrences hspan))
    rw [List.filter_eq_nil_iff.2 fun span hspan => by simpa using hnone span hspan, List.take_zero,
      occurrences_nil]
  have hlength : ((encode text).take n).length = n := by
    rw [List.length_take, min_eq_left hn]
  unfold occurrences
  split_ifs with hempty hascii
  · rfl
  · cases hsearch : engine.asciiLiteral value with
    | none => rfl
    | some search =>
      have hlaw := laws.ascii value search hsearch ((encode text).take n) ((encode text).drop n)
      rw [List.take_append_drop, hlength] at hlaw
      exact hlaw
  · cases hsearch : engine.textLiteral value with
    | none => rfl
    | some search =>
      have htext : encode text = encode (String.ofList text.toList) := by rw [String.ofList_toList]
      have hwhole := textParts_encode_append text.toList (r := []) rfl
        (by rw [List.append_nil, ← htext, ← List.length_pos_iff]; omega) (encode text).length
      rw [List.append_nil, ← htext] at hwhole
      rw [htext] at hn
      simp only [hlength, hwhole, flatMap_singleton_spans]
      have htake := textOccurrences_take laws hsearch text.toList hpos hn
      rw [← htext] at htake
      exact htake

/-- What is found in the part is what is found in the text, cut short. -/
theorem allSpans_cutBytes {profile : Option RedactionProfile} {limit : ℕ} {text : String}
    (hlimit : limit < (encode text).length) (h : CutApart engine profile limit text) :
    allSpans engine (cutBytes (encode text) limit) profile =
      clip limit (allSpans engine (encode text) profile) := by
  unfold allSpans
  rw [clip_append, clip_flatMap, clip_flatMap]
  congr 1
  · refine List.flatMap_congr fun value hvalue => ?_
    rw [cutBytes_of_lt hlimit, occurrences_take laws hlimit.le, clip_eq_filter
      (fun span hspan => lt_of_mem_occurrences hspan) (h.values value hvalue)]
  · exact List.flatMap_congr h.rules

theorem cutSafe_of_apart {profile : Option RedactionProfile} {limit : ℕ} {text : String}
    (h : (encode text).length ≤ limit ∨ CutApart engine profile limit text) :
    CutSafe engine profile limit text := by
  intro whole hwhole
  rcases Nat.lt_or_ge limit (encode text).length with hlimit | hlimit
  · have hapart := h.resolve_left (not_le.2 hlimit)
    obtain ⟨accepted, haccepted, -⟩ := Result.bind_eq_ok.1 hwhole
    have hle : (cutBytes (encode text) limit).length ≤ (encode text).length :=
      List.length_take_le' _ _
    obtain ⟨accepted', haccepted', hcovered⟩ :=
      exists_covered_part hle (allSpans_cutBytes laws hlimit hapart) haccepted
    refine ⟨⟨_, redactBytes_eq haccepted'⟩, ?_⟩
    rintro i hi ⟨found, hfound, hi'⟩
    obtain rfl := Except.ok.inj (haccepted.symm.trans hfound)
    exact ⟨accepted', haccepted', (hcovered i hi).2 hi'⟩
  · rw [cutBytes_of_le hlimit]
    exact ⟨⟨whole, hwhole⟩, fun i _ h => h⟩

end Cut

/-- Where the redaction is as strong, something is found in the part at the first octet of each
value that begins before the cut. -/
theorem exists_found_of_cutSafe {engine : Engine} {profile : Option RedactionProfile} {limit : ℕ}
    {text : String} {whole : Bytes} (hsafe : CutSafe engine profile limit text)
    (hwhole : redactBytes engine (encode text) profile = .ok whole) :
    ∀ value ∈ valuesOf profile, ∀ span ∈ occurrences engine (encode text) value, span.1 < limit →
      ∃ found ∈ allSpans engine (cutBytes (encode text) limit) profile,
        found.1 ≤ span.1 ∧ span.1 < found.2 := by
  intro value hvalue span hspan hlimit
  cases profile with
  | none => cases hvalue
  | some p =>
    obtain ⟨accepted, haccepted, -⟩ := Result.bind_eq_ok.1 hwhole
    have hlt := lt_of_mem_occurrences hspan
    have hcovered : Covered accepted span.1 := by
      rcases (literal_covered haccepted).2 value hvalue span hspan span.1 le_rfl hlt with h | h
      · exact h
      · obtain ⟨m, -, -, hlate, hearly⟩ := h
        omega
    obtain ⟨accepted', haccepted', m, hm, hstart, hstop⟩ :=
      (hsafe whole hwhole).2 span.1 hlimit ⟨accepted, haccepted, hcovered⟩
    have hspans := (collectMatches_eq_ok haccepted').2.2.2
    have hmem : m.span ∈ sweep (allSpans engine (cutBytes (encode text) limit) (some p)) :=
      hspans ▸ List.mem_map_of_mem hm
    exact ⟨m.span, (List.mem_insertionSort First).1 (mem_of_mem_choose hmem), hstart, hstop⟩

/-- The redaction of a part is as strong as that of the text where the text fits or no value lies
across the cut and the rules find the same, cut short; and where it is, each value that begins before
the cut is met by something found in the part. -/
theorem cutSafe_bounds {engine : Engine} (laws : LiteralSearch engine)
    (profile : Option RedactionProfile) (limit : ℕ) (text : String) :
    ((encode text).length ≤ limit ∨ CutApart engine profile limit text →
      CutSafe engine profile limit text) ∧
    (CutSafe engine profile limit text →
      (∃ whole, redactBytes engine (encode text) profile = .ok whole) →
      ∀ value ∈ valuesOf profile, ∀ span ∈ occurrences engine (encode text) value, span.1 < limit →
        ∃ found ∈ allSpans engine (cutBytes (encode text) limit) profile,
          found.1 ≤ span.1 ∧ span.1 < found.2) :=
  ⟨cutSafe_of_apart laws, fun hsafe ⟨_, hwhole⟩ => exists_found_of_cutSafe hsafe hwhole⟩

/-! ### A search for a literal -/

section Starts

variable {value : Bytes}

theorem le_of_mem_startsOf {fuel offset i : ℕ} {text : Bytes}
    (h : i ∈ startsOf value fuel offset text) : offset ≤ i := by
  induction fuel generalizing offset text with
  | zero => cases h
  | succ fuel ih =>
    cases text with
    | nil => cases h
    | cons b text =>
      rw [startsOf] at h
      split_ifs at h
      · rcases List.mem_cons.1 h with rfl | h
        · exact le_rfl
        · exact (Nat.le_add_right _ _).trans (ih h)
      · exact (Nat.le_succ _).trans (ih h)

/-- A value that is longer than the text does not occur in it. -/
theorem startsOf_eq_nil {fuel offset : ℕ} {text : Bytes} (h : text.length < value.length) :
    startsOf value fuel offset text = [] := by
  induction fuel generalizing offset text with
  | zero => rfl
  | succ fuel ih =>
    cases text with
    | nil => rfl
    | cons b text =>
      have hne : ((b :: text).take value.length).map toAsciiLowercase ≠
          value.map toAsciiLowercase := fun heq => by
        have hlength := congrArg List.length heq
        simp only [List.length_map, List.length_take] at hlength
        omega
      rw [startsOf, if_neg hne]
      exact ih (Nat.lt_of_succ_lt h)

/-- No occurrence that starts late ends early. -/
theorem filter_startsOf_eq_nil {fuel offset n : ℕ} {text : Bytes} (h : n < offset + value.length) :
    ((startsOf value fuel offset text).filter fun i => i + value.length ≤ n) = [] := by
  refine List.filter_eq_nil_iff.2 fun i hi => ?_
  have hle := le_of_mem_startsOf hi
  simp only [decide_eq_true_eq]
  omega

/-- In the first part of a text a value starts where it starts in the text and ends in the part. -/
theorem startsOf_append (hvalue : 0 < value.length) (fuel fuel' offset : ℕ) (s t : Bytes)
    (hs : s.length ≤ fuel) (hst : (s ++ t).length ≤ fuel') :
    startsOf value fuel offset s =
      (startsOf value fuel' offset (s ++ t)).filter fun i => i + value.length ≤ offset + s.length := by
  induction fuel generalizing fuel' offset s with
  | zero =>
    obtain rfl := List.length_eq_zero_iff.1 (Nat.le_zero.1 hs)
    rw [filter_startsOf_eq_nil (by simpa using hvalue)]
    rfl
  | succ fuel ih =>
    by_cases hlong : s.length < value.length
    · rw [startsOf_eq_nil hlong, filter_startsOf_eq_nil (by omega)]
    rcases s with _ | ⟨b, s⟩
    · exact absurd hvalue hlong
    rw [List.length_cons] at hs hlong
    rw [List.cons_append, List.length_cons] at hst
    obtain ⟨f, rfl⟩ : ∃ f, fuel' = f + 1 := ⟨fuel' - 1, by omega⟩
    have htake : (b :: s ++ t).take value.length = (b :: s).take value.length :=
      List.take_append_of_le_length (not_lt.1 hlong)
    have hdrop : (b :: s ++ t).drop value.length = (b :: s).drop value.length ++ t :=
      List.drop_append_of_le_length (not_lt.1 hlong)
    rw [List.cons_append] at htake hdrop ⊢
    rw [startsOf, startsOf, htake, hdrop, List.length_cons]
    split_ifs with hmatch
    · have hlength : ((b :: s).drop value.length).length = s.length + 1 - value.length := by
        rw [List.length_drop, List.length_cons]
      have hrest := ih f (offset + value.length) ((b :: s).drop value.length) (by omega)
        (by rw [List.length_append] at hst ⊢; omega)
      have hend : offset + value.length + (s.length + 1 - value.length) =
          offset + (s.length + 1) := by omega
      rw [hlength, hend] at hrest
      rw [hrest, List.filter_cons_of_pos (by simp; omega)]
    · have hrest := ih f (offset + 1) s (by omega) (by omega)
      rw [add_assoc, add_comm 1] at hrest
      exact hrest

/-- A character that does not start the value is passed. -/
theorem startsOf_skip {v : UInt8} (hv : toAsciiLowercase v ≠ 120) (k fuel offset : ℕ)
    (rest : Bytes) :
    startsOf (v :: value) (k + fuel) offset (List.replicate k 120 ++ rest) =
      startsOf (v :: value) fuel (offset + k) rest := by
  induction k generalizing offset with
  | zero => simp
  | succ k ih =>
    have hne : ((120 :: (List.replicate k 120 ++ rest)).take (v :: value).length).map
        toAsciiLowercase ≠ (v :: value).map toAsciiLowercase := by
      rw [List.length_cons, List.take_succ_cons, List.map_cons, List.map_cons]
      exact fun heq => hv (List.cons.inj heq).1.symm
    rw [Nat.succ_add, List.replicate_succ, List.cons_append, startsOf, if_neg hne, ih, add_assoc,
      add_comm 1]

theorem spansFound_spansOf (hvalue : 0 < value.length) (text : Bytes) :
    spansFound (spansOf value) text =
      ((startsOf value text.length 0 text).filter fun i => i + value.length ≤ text.length).map
        fun i => (i, i + value.length) := by
  unfold spansFound spansOf
  generalize startsOf value text.length 0 text = starts
  induction starts with
  | nil => rfl
  | cons i starts ih =>
    by_cases hfits : i + value.length ≤ text.length
    · rw [List.filterMap_cons_some (dif_pos ⟨Nat.lt_add_of_pos_right hvalue, hfits⟩),
        List.filter_cons_of_pos (by simpa using hfits), List.map_cons, List.map_cons, ih]
    · rw [List.filterMap_cons_none (dif_neg fun h => hfits h.2),
        List.filter_cons_of_neg (by simpa using hfits), ih]

end Starts

/-- Literals are searched for, those with other characters than ASCII do not compile, and no rule
finds anything. -/
def searchEngine : Engine := { nameEngine with textLiteral := fun _ => none }

theorem literalSearch_searchEngine : LiteralSearch searchEngine where
  ascii value search hsearch s t := by
    obtain rfl : spansOf (ascii value) = search := Option.some.inj hsearch
    rcases Nat.eq_zero_or_pos (ascii value).length with hempty | hpos
    · have hnone (text : Bytes) : spansFound (spansOf (ascii value)) text = [] := by
        unfold spansFound spansOf
        simp [hempty]
      rw [hnone, hnone]
      rfl
    · rw [spansFound_spansOf hpos, spansFound_spansOf hpos,
        startsOf_append hpos s.length (s ++ t).length 0 s t le_rfl le_rfl, List.filter_map,
        List.filter_filter, List.filter_filter]
      congr 1
      refine List.filter_congr fun i _ => ?_
      simp
      omega
  text value search hsearch := by cases hsearch
  boundary value search hsearch := by cases hsearch

/-! ### A name across the cut -/

def annaMaria : Option RedactionProfile := some { fullName := "Anna Maria" }

/-- The five octets before the cut are the beginning of the name. -/
def straddling (limit : ℕ) : String :=
  String.ofList (List.replicate (limit - 5) 'x' ++ "Anna Maria".toList)

theorem encode_replicate_append (k : ℕ) (cs : List Char) :
    encode (String.ofList (List.replicate k 'x' ++ cs)) =
      List.replicate k 120 ++ encode (String.ofList cs) := by
  rw [encode_ofList_append]
  congr 1
  induction k with
  | zero => rfl
  | succ k ih =>
    rw [List.replicate_succ, encode_ofList_cons, ih]
    rfl

theorem occurrences_annaMaria (input : Bytes) : occurrences searchEngine input "Anna Maria" =
    spansFound (spansOf (ascii "Anna Maria")) input := by
  unfold occurrences
  rw [if_neg (by decide), if_pos (by decide)]
  rfl

theorem allSpans_annaMaria (input : Bytes) : allSpans searchEngine input annaMaria =
    spansFound (spansOf (ascii "Anna Maria")) input := by
  have hvalues : valuesOf annaMaria = ["Anna Maria"] := by decide
  have hrules : builtinRules.flatMap (ruleSpans searchEngine input) = [] := rfl
  rw [allSpans, hvalues, hrules, List.flatMap_singleton, List.append_nil, occurrences_annaMaria]

theorem possible_annaMaria : Possible searchEngine annaMaria := by
  refine ⟨fun p hp => ?_, fun value hvalue => ?_⟩
  · obtain rfl := Option.some.inj hp
    decide
  · have hvalues : valuesOf annaMaria = ["Anna Maria"] := by decide
    rw [hvalues, List.mem_singleton] at hvalue
    subst hvalue
    exact Or.inr (by decide)

/-- The name is searched for behind the characters before it. -/
theorem spansFound_replicate_append (k : ℕ) (rest : Bytes) :
    spansFound (spansOf (ascii "Anna Maria")) (List.replicate k 120 ++ rest) =
      ((startsOf (ascii "Anna Maria") rest.length k rest).filter fun i => i + 10 ≤ k + rest.length).map
        fun i => (i, i + 10) := by
  have hname : ascii "Anna Maria" = 65 :: [110, 110, 97, 32, 77, 97, 114, 105, 97] := by decide
  have hskip : startsOf (ascii "Anna Maria") (k + rest.length) 0 (List.replicate k 120 ++ rest) =
      startsOf (ascii "Anna Maria") rest.length k rest := by
    rw [hname, startsOf_skip (by decide), zero_add]
  have hlength : (ascii "Anna Maria").length = 10 := by decide
  rw [spansFound_spansOf (by decide), hlength, List.length_append, List.length_replicate, hskip]

theorem spansFound_straddling (k : ℕ) :
    spansFound (spansOf (ascii "Anna Maria")) (List.replicate k 120 ++ ascii "Anna Maria") =
        [(k, k + 10)] ∧
      spansFound (spansOf (ascii "Anna Maria")) (List.replicate k 120 ++ ascii "Anna Maria!") =
        [(k, k + 10)] := by
  have hstarts : startsOf (ascii "Anna Maria") (ascii "Anna Maria").length k (ascii "Anna Maria") =
      [k] := rfl
  have hstarts' : startsOf (ascii "Anna Maria") (ascii "Anna Maria!").length k
      (ascii "Anna Maria!") = [k] := rfl
  have hlength : (ascii "Anna Maria").length = 10 ∧ (ascii "Anna Maria!").length = 11 := by decide
  rw [spansFound_replicate_append, spansFound_replicate_append, hstarts, hstarts', hlength.1,
    hlength.2]
  simp

/-- The beginning of the name is not found. -/
theorem spansFound_beginning (k : ℕ) :
    spansFound (spansOf (ascii "Anna Maria")) (List.replicate k 120 ++ ascii "Anna ") = [] := by
  rw [spansFound_replicate_append, startsOf_eq_nil (by decide)]
  rfl

theorem encode_straddling (limit : ℕ) :
    encode (straddling limit) = List.replicate (limit - 5) 120 ++ ascii "Anna Maria" :=
  encode_replicate_append _ _

theorem cutBytes_straddling {limit : ℕ} (hpos : 5 ≤ limit) :
    cutBytes (encode (straddling limit)) limit =
      List.replicate (limit - 5) 120 ++ ascii "Anna " := by
  have hname : ascii "Anna Maria" = ascii "Anna " ++ ascii "Maria" := by decide
  have hlength : (List.replicate (limit - 5) 120 ++ ascii "Anna ").length = limit := by
    have hbeginning : (ascii "Anna ").length = 5 := by decide
    rw [List.length_append, List.length_replicate, hbeginning]
    omega
  have hmaria : (ascii "Maria").length = 5 := by decide
  rw [encode_straddling, hname, ← List.append_assoc, cutBytes_of_lt, List.take_left' hlength]
  rw [List.length_append, hlength, hmaria]
  omega

/-- The redaction of a text with the name across the cut leaves the beginning of the name. -/
theorem not_cutSafe {limit : ℕ} (hpos : 5 ≤ limit) (hle : limit + 5 ≤ maxInputBytes) :
    ¬ CutSafe searchEngine annaMaria limit (straddling limit) := by
  intro hsafe
  have hname : (ascii "Anna Maria").length = 10 := by decide
  have hlength : (encode (straddling limit)).length ≤ maxInputBytes := by
    rw [encode_straddling, List.length_append, List.length_replicate, hname]
    omega
  have hspans : allSpans searchEngine (encode (straddling limit)) annaMaria =
      [(limit - 5, limit - 5 + 10)] := by
    rw [allSpans_annaMaria, encode_straddling, (spansFound_straddling _).1]
  obtain ⟨accepted, haccepted⟩ := exists_collectMatches hlength possible_annaMaria
    (by rw [hspans]; simp [maxMatches])
  have hvalue : "Anna Maria" ∈ valuesOf annaMaria := by decide
  have hspan : (limit - 5, limit - 5 + 10) ∈
      occurrences searchEngine (encode (straddling limit)) "Anna Maria" := by
    rw [occurrences_annaMaria, encode_straddling, (spansFound_straddling _).1]
    exact List.mem_singleton_self _
  obtain ⟨found, hfound, -⟩ := exists_found_of_cutSafe hsafe (redactBytes_eq haccepted) _ hvalue _
    hspan (show limit - 5 < limit by omega)
  rw [allSpans_annaMaria, cutBytes_straddling hpos, spansFound_beginning] at hfound
  cases hfound

/-- A name across the cut of the prompts: its first five octets are told to the model. -/
theorem not_cutSafe_straddling :
    ¬ CutSafe searchEngine annaMaria replyBodyLimit (straddling replyBodyLimit) ∧
      ¬ CutSafe searchEngine annaMaria brokerMessageLimit (straddling brokerMessageLimit) :=
  ⟨not_cutSafe (by decide) (by decide), not_cutSafe (by decide) (by decide)⟩

/-- The name ends at the cut. -/
def endingAtCut : String := String.ofList (List.replicate 1990 'x' ++ "Anna Maria!".toList)

/-- A name that ends at the cut is found in the part. -/
theorem cutSafe_endingAtCut :
    CutSafe searchEngine annaMaria replyBodyLimit endingAtCut ∧
      ∃ found ∈ allSpans searchEngine (cutBytes (encode endingAtCut) replyBodyLimit) annaMaria,
        found.1 ≤ 1990 ∧ 1990 < found.2 := by
  have hencode : encode endingAtCut = List.replicate 1990 120 ++ ascii "Anna Maria!" :=
    encode_replicate_append _ _
  have hspans := (spansFound_straddling 1990).2
  have hvalues : valuesOf annaMaria = ["Anna Maria"] := by decide
  have hapart : CutApart searchEngine annaMaria replyBodyLimit endingAtCut := by
    refine ⟨fun value hvalue span hspan => ?_, fun rule _ => rfl⟩
    rw [hvalues, List.mem_singleton] at hvalue
    rw [hvalue, occurrences_annaMaria, hencode, hspans, List.mem_singleton] at hspan
    rw [hspan]
    decide
  have hlength : (encode endingAtCut).length ≤ maxInputBytes := by
    have hname : (ascii "Anna Maria!").length = 11 := by decide
    rw [hencode, List.length_append, List.length_replicate, hname]
    decide
  have hfound : allSpans searchEngine (encode endingAtCut) annaMaria = [(1990, 2000)] := by
    rw [allSpans_annaMaria, hencode, hspans]
  obtain ⟨accepted, haccepted⟩ := exists_collectMatches hlength possible_annaMaria
    (by rw [hfound]; simp [maxMatches])
  obtain ⟨hsafe, hmet⟩ :=
    cutSafe_bounds literalSearch_searchEngine annaMaria replyBodyLimit endingAtCut
  refine ⟨hsafe (Or.inr hapart), hmet (hsafe (Or.inr hapart)) ⟨_, redactBytes_eq haccepted⟩
    "Anna Maria" (by rw [hvalues]; exact List.mem_singleton_self _) (1990, 2000) ?_ (by decide)⟩
  rw [occurrences_annaMaria, hencode, hspans]
  exact List.mem_singleton_self _

end EraseMe.Triage
