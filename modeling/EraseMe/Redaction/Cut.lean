import EraseMe.Library.Intervals
import EraseMe.Library.Utf8Text
import EraseMe.Redaction.Overlap

/-!
# Redaction of a text that is cut

What `collectMatches` accepts depends on the spans it finds only: they are put in order and swept
from the left (`collectMatches_eq_ok`).  So a text can be cut without harm where the spans found in
the part are those found in the whole text, cut short.
-/

namespace EraseMe.Redaction

open Intervals

/-! ### The spans -/

def Match.span (m : Match) : ℕ × ℕ := (m.start, m.stop)

/-- Where a search finds something: from the first number to the second. -/
def spansFound (search : (text : Bytes) → List (Span text.length)) (text : Bytes) : List (ℕ × ℕ) :=
  (search text).map fun span => (span.start, span.stop)

/-- A match of a rule that is a number or an address after all. -/
def Genuine (rule : Rule) (value : Bytes) : Prop :=
  ¬ (rule.name = "SSN" ∧ invalidSsn value) ∧ ¬ (rule.name = "Email" ∧ ¬ validEmail value)

instance (rule : Rule) (value : Bytes) : Decidable (Genuine rule value) :=
  inferInstanceAs (Decidable (¬ _ ∧ ¬ _))

/-- What a rule finds. -/
def ruleSpans (engine : Engine) (input : Bytes) (rule : Rule) : List (ℕ × ℕ) :=
  (spansFound (engine.rule rule.replacement) input).filter fun span =>
    Genuine rule (slice input span.1 span.2)

/-- The values of the profile, if there is one. -/
def valuesOf : Option RedactionProfile → List String
  | none => []
  | some profile => literals profile

/-- What is found in a text, in the order in which it is found. -/
def allSpans (engine : Engine) (input : Bytes) (profile : Option RedactionProfile) :
    List (ℕ × ℕ) :=
  (valuesOf profile).flatMap (occurrences engine input) ++
    builtinRules.flatMap (ruleSpans engine input)

/-- A value that can be searched for. -/
def Searchable (engine : Engine) (value : String) : Prop :=
  value = "" ∨
    ¬ (value.utf8ByteSize > maxProfileLiteralBytes ∨ Char.ofNat 0 ∈ value.toList) ∧
      (if isAscii value then (engine.asciiLiteral value).isSome
        else (engine.textLiteral value).isSome) = true

/-- A profile that is in order, with values that can be searched for. -/
def Possible (engine : Engine) (profile : Option RedactionProfile) : Prop :=
  (∀ p ∈ profile, validateProfile p = .ok ()) ∧ ∀ value ∈ valuesOf profile, Searchable engine value

/-! ### Steps that append matches -/

/-- A step that appends matches with the spans, when it is possible and there is room for them. -/
structure Adds (step : List Match → Except RedactionError (List Match)) (possible : Prop)
    (spans : List (ℕ × ℕ)) : Prop where
  eq_ok : ∀ out out', step out = .ok out' → possible ∧
    (out.length ≤ maxMatches → out'.length ≤ maxMatches) ∧
      out'.map Match.span = out.map Match.span ++ spans
  exists_ok : ∀ out, possible → out.length + spans.length ≤ maxMatches → ∃ out', step out = .ok out'

section Adds

variable {f g : List Match → Except RedactionError (List Match)} {p q : Prop}
  {s t : List (ℕ × ℕ)}

theorem Adds.length_eq (h : Adds f p s) {out out' : List Match} (hok : f out = .ok out') :
    out'.length = out.length + s.length := by
  have hspans := congrArg List.length (h.eq_ok out out' hok).2.2
  simpa using hspans

theorem adds_nothing : Adds .ok True [] where
  eq_ok out out' h := by
    obtain rfl := Except.ok.inj h
    exact ⟨trivial, id, (List.append_nil _).symm⟩
  exists_ok out _ _ := ⟨out, rfl⟩

theorem adds_error (e : RedactionError) (s : List (ℕ × ℕ)) : Adds (fun _ => .error e) False s where
  eq_ok out out' h := by cases h
  exists_ok out h := h.elim

theorem adds_pushMatch (m : Match) : Adds (pushMatch · m) True [m.span] where
  eq_ok out out' h := by
    unfold pushMatch at h
    split_ifs at h with hfull
    obtain rfl := Except.ok.inj h
    refine ⟨trivial, fun _ => ?_, by simp⟩
    rw [List.length_append, List.length_singleton]
    omega
  exists_ok out _ h := by
    rw [List.length_singleton] at h
    exact ⟨out ++ [m], if_neg (by omega)⟩

theorem Adds.congr (h : Adds f p s) (hp : p ↔ q) (hs : s = t) : Adds f q t := by
  rw [← hs, ← propext hp]
  exact h

theorem Adds.bind (hf : Adds f p s) (hg : Adds g q t) :
    Adds (fun out => f out >>= g) (p ∧ q) (s ++ t) where
  eq_ok out out' h := by
    obtain ⟨mid, hmid, hrest⟩ := Result.bind_eq_ok.1 h
    obtain ⟨hp, hle, hspans⟩ := hf.eq_ok _ _ hmid
    obtain ⟨hq, hle', hspans'⟩ := hg.eq_ok _ _ hrest
    exact ⟨⟨hp, hq⟩, hle' ∘ hle, by rw [hspans', hspans, List.append_assoc]⟩
  exists_ok out hpq hroom := by
    rw [List.length_append] at hroom
    obtain ⟨mid, hmid⟩ := hf.exists_ok out hpq.1 (by omega)
    have hlength := hf.length_eq hmid
    obtain ⟨out', hout'⟩ := hg.exists_ok mid hpq.2 (by omega)
    exact ⟨out', Result.bind_eq_ok.2 ⟨mid, hmid, hout'⟩⟩

/-- A loop adds what its steps add. -/
theorem Adds.foldlM {α : Type} {f : List Match → α → Except RedactionError (List Match)}
    {p : α → Prop} {s : α → List (ℕ × ℕ)} (h : ∀ a, Adds (f · a) (p a) (s a)) (l : List α) :
    Adds (l.foldlM f) (∀ a ∈ l, p a) (l.flatMap s) := by
  induction l with
  | nil => exact adds_nothing.congr (by simp) rfl
  | cons a l ih =>
    have hcons := (h a).bind ih
    exact hcons.congr (by simp) (by simp)

theorem adds_matches {α : Type} (m : α → Match) (l : List α) :
    Adds (l.foldlM fun out a => pushMatch out (m a)) True (l.map fun a => (m a).span) := by
  refine (Adds.foldlM (fun a => adds_pushMatch (m a)) l).congr (by simp) ?_
  rw [List.map_eq_flatMap]

theorem Adds.ite (c : Prop) [Decidable c] (hf : c → Adds f p s) (hg : ¬ c → Adds g q t) :
    Adds (fun out => if c then f out else g out) (if c then p else q) (if c then s else t) := by
  split_ifs with hc
  · exact hf hc
  · exact hg hc

variable (engine : Engine) (input : Bytes) (name : String)

theorem adds_appendTextLiteral (search : (text : Bytes) → List (Span text.length))
    (replacement : Bytes) (fuel offset : ℕ) :
    Adds (appendTextLiteral search input name replacement fuel offset) True
      ((textParts input fuel offset).flatMap fun part =>
        (search part.2).map fun span => (part.1 + span.start, part.1 + span.stop)) := by
  induction fuel generalizing offset with
  | zero => exact adds_nothing
  | succ fuel ih =>
    have hfirst := adds_matches (matchAt input offset name replacement)
      (search ((input.drop offset).take
        (validUpTo (input.drop offset).length (input.drop offset))))
    have hrest := Adds.ite
      (validUpTo (input.drop offset).length (input.drop offset) = (input.drop offset).length)
      (fun _ => adds_nothing) fun _ => ih (min (offset +
        (validUpTo (input.drop offset).length (input.drop offset) +
          max (Utf8.next ((input.drop offset).drop
            (validUpTo (input.drop offset).length (input.drop offset)))).2 1)) input.length)
    refine Adds.congr (Adds.ite (offset ≥ input.length) (fun _ => adds_nothing) fun _ =>
      hfirst.bind hrest) (by split_ifs <;> simp) ?_
    rw [textParts]
    split_ifs with hoffset hall
    · rfl
    · simp only [if_pos hall, List.flatMap_cons, List.flatMap_nil]
      rfl
    · simp only [if_neg hall, List.flatMap_cons]
      rfl

/-- A value adds its occurrences. -/
theorem adds_appendLiteral (replacement value : String) :
    Adds (appendLiteral engine input name replacement · value) (Searchable engine value)
      (occurrences engine input value) := by
  unfold appendLiteral occurrences Searchable
  by_cases hempty : value = ""
  · simp only [if_pos hempty]
    exact adds_nothing.congr (by simp [hempty]) rfl
  simp only [if_neg hempty]
  by_cases hbad : value.utf8ByteSize > maxProfileLiteralBytes ∨ Char.ofNat 0 ∈ value.toList
  · simp only [if_pos hbad]
    exact (adds_error _ _).congr (by simp [hempty, hbad]) rfl
  simp only [if_neg hbad]
  by_cases hascii : isAscii value
  · simp only [if_pos hascii]
    cases hsearch : engine.asciiLiteral value with
    | none => exact (adds_error _ _).congr (by simp [hempty]) rfl
    | some search =>
      refine (adds_matches _ (search input)).congr (by simp [hbad]) ?_
      simp [matchAt, Match.span]
  · simp only [if_neg hascii]
    cases hsearch : engine.textLiteral value with
    | none => exact (adds_error _ _).congr (by simp [hempty]) rfl
    | some search =>
      exact (adds_appendTextLiteral input name search _ _ _).congr (by simp [hbad]) rfl

theorem adds_appendAddress (address : Address) :
    Adds (appendAddress engine input · address)
      (∀ value ∈ [address.street, address.city, address.postalCode], Searchable engine value)
      ([address.street, address.city, address.postalCode].flatMap (occurrences engine input)) := by
  refine Adds.congr ((adds_appendLiteral engine input _ _ address.street).bind
    ((adds_appendLiteral engine input _ _ address.city).bind
      (adds_appendLiteral engine input _ _ address.postalCode))) (by simp) (by simp)

/-- A profile adds the occurrences of its values. -/
theorem adds_appendProfile (profile : RedactionProfile) :
    Adds (appendProfile engine input profile)
      (∀ value ∈ literals profile, Searchable engine value)
      ((literals profile).flatMap (occurrences engine input)) := by
  have hvalues (name replacement : String) (values : List String) :=
    Adds.foldlM (adds_appendLiteral engine input name replacement) values
  refine Adds.congr ((hvalues _ _ profile.emailAddresses).bind
    ((hvalues _ _ profile.phoneNumbers).bind
      ((adds_appendLiteral engine input _ _ profile.fullName).bind
        ((hvalues _ _ profile.nameVariants).bind
          (Adds.foldlM (adds_appendAddress engine input) profile.addresses))))) ?_ ?_
  · simp only [literals, List.forall_mem_append, List.forall_mem_cons, List.forall_mem_flatMap]
    tauto
  · simp [literals, List.flatMap_append, List.flatMap_assoc]

/-- A rule adds what it finds. -/
theorem adds_appendRule (rule : Rule) :
    Adds (appendRule engine input · rule) True (ruleSpans engine input rule) := by
  have hfound (span : Span input.length) : Adds (appendFound engine input rule · span) True
      (if Genuine rule (slice input span.start span.stop) then [(span.start, span.stop)] else []) := by
    unfold appendFound Genuine
    dsimp only
    by_cases hssn : rule.name = "SSN" ∧ invalidSsn (slice input span.start span.stop)
    · simp only [if_pos hssn]
      exact adds_nothing.congr Iff.rfl (by simp [hssn])
    · by_cases hemail : rule.name = "Email" ∧ ¬ validEmail (slice input span.start span.stop)
      · simp only [if_neg hssn, if_pos hemail]
        exact adds_nothing.congr Iff.rfl (by simp [hemail])
      · simp only [if_neg hssn, if_neg hemail]
        exact (adds_pushMatch _).congr Iff.rfl (if_pos ⟨hssn, hemail⟩).symm
  refine (Adds.foldlM hfound (engine.rule rule.replacement input)).congr (by simp) ?_
  unfold ruleSpans spansFound
  generalize engine.rule rule.replacement input = l
  induction l with
  | nil => rfl
  | cons span l ih =>
    rw [List.flatMap_cons, List.map_cons, ih]
    split_ifs with hgenuine
    · rw [List.filter_cons_of_pos (by simpa using hgenuine)]
      rfl
    · rw [List.filter_cons_of_neg (by simpa using hgenuine)]
      rfl

end Adds

/-! ### What is accepted -/

section Accepted

variable {engine : Engine} {input : Bytes} {profile : Option RedactionProfile}

theorem lt_of_mem_spansFound {search : (text : Bytes) → List (Span text.length)} {text : Bytes}
    {s : ℕ × ℕ} (h : s ∈ spansFound search text) : s.1 < s.2 ∧ s.2 ≤ text.length := by
  obtain ⟨span, -, rfl⟩ := List.mem_map.1 h
  exact ⟨span.lt, span.le⟩

theorem lt_of_mem_occurrences {value : String} {s : ℕ × ℕ}
    (h : s ∈ occurrences engine input value) : s.1 < s.2 := by
  unfold occurrences at h
  split_ifs at h
  · cases h
  · cases hsearch : engine.asciiLiteral value with
    | none => simp [hsearch] at h
    | some search =>
      simp only [hsearch] at h
      exact (lt_of_mem_spansFound h).1
  · cases hsearch : engine.textLiteral value with
    | none => simp [hsearch] at h
    | some search =>
      simp only [hsearch, List.mem_flatMap, List.mem_map] at h
      obtain ⟨part, -, span, -, rfl⟩ := h
      exact Nat.add_lt_add_left span.lt part.1

theorem lt_of_mem_allSpans {s : ℕ × ℕ} (h : s ∈ allSpans engine input profile) : s.1 < s.2 := by
  rcases List.mem_append.1 h with h | h
  · obtain ⟨value, -, h⟩ := List.mem_flatMap.1 h
    exact lt_of_mem_occurrences h
  · obtain ⟨rule, -, h⟩ := List.mem_flatMap.1 h
    exact (lt_of_mem_spansFound (List.mem_filter.1 h).1).1

/-- Accepting the matches is choosing their spans. -/
theorem map_accept (items kept : List Match) (last : ℕ) (hkept : kept = [] → last = 0) :
    ((items.foldl accept (kept, last)).1).map Match.span =
      kept.map Match.span ++ choose (some last) (items.map Match.span) := by
  induction items generalizing kept last with
  | nil => simp [choose]
  | cons item items ih =>
    have hfree : (∀ e ∈ some last, e ≤ item.span.1) ↔ kept = [] ∨ item.start ≥ last := by
      constructor
      · exact fun h => Or.inr (h last rfl)
      · rintro (h | h)
        · simp [hkept h]
        · simpa [Match.span] using h
    rw [List.foldl_cons, List.map_cons, choose, accept]
    simp only [hfree]
    split_ifs with htaken
    · rw [ih _ _ (by simp), List.map_append, List.append_assoc]
      rfl
    · exact ih kept last hkept

/-- Nothing starts before the first octet. -/
theorem choose_none (l : List (ℕ × ℕ)) : choose none l = choose (some 0) l := by
  cases l with
  | nil => rfl
  | cons a l => simp [choose]

theorem map_sorted {found : List Match} (h : ∀ m ∈ found, m.start < m.stop) :
    (found.insertionSort fun a b => comesFirst a b).map Match.span =
      (found.map Match.span).insertionSort First := by
  refine List.map_insertionSort _ _ _ _ fun a ha b hb => ?_
  have ha' := h a ha
  have hb' := h b hb
  rw [comesFirst_iff]
  show _ ↔ a.start < b.start ∨ a.start = b.start ∧ b.stop ≤ a.stop
  omega

/-- What the rules add to what is found of the profile. -/
theorem adds_found (engine : Engine) (input : Bytes) (profile : Option RedactionProfile) :
    Adds (fun out => (match profile with
        | some p => validateProfile p >>= fun _ => appendProfile engine input p out
        | none => .ok out) >>= builtinRules.foldlM (appendRule engine input))
      (Possible engine profile) (allSpans engine input profile) := by
  have hrules := Adds.foldlM (adds_appendRule engine input) builtinRules
  cases profile with
  | none => exact (adds_nothing.bind hrules).congr (by simp [Possible, valuesOf]) rfl
  | some p =>
    simp only
    cases hvalid : validateProfile p with
    | error e =>
      have hnone := (adds_error e ((literals p).flatMap (occurrences engine input))).bind hrules
      exact hnone.congr (by simp [Possible, hvalid]) rfl
    | ok u =>
      have hsome := (adds_appendProfile engine input p).bind hrules
      exact hsome.congr (by simp [Possible, hvalid, valuesOf]) rfl

theorem collectMatches_iff {accepted : List Match} :
    collectMatches engine input profile = .ok accepted ↔ input.length ≤ maxInputBytes ∧
      ∃ found, ((match profile with
        | some p => validateProfile p >>= fun _ => appendProfile engine input p []
        | none => .ok []) >>= builtinRules.foldlM (appendRule engine input)) = .ok found ∧
          accepted = ((found.insertionSort fun a b => comesFirst a b).foldl accept ([], 0)).1 := by
  unfold collectMatches
  by_cases hlarge : input.length > maxInputBytes
  · rw [if_pos hlarge]
    exact iff_of_false (by rintro ⟨⟩) fun h => absurd h.1 (not_le.2 hlarge)
  rw [if_neg hlarge]
  constructor
  · intro h
    obtain ⟨first, hfirst, hrest⟩ := Result.bind_eq_ok.1 h
    obtain ⟨found, hfound, hdone⟩ := Result.bind_eq_ok.1 hrest
    refine ⟨not_lt.1 hlarge, found, Result.bind_eq_ok.2 ⟨first, ?_, hfound⟩,
      (Except.ok.inj hdone).symm⟩
    cases profile <;> exact hfirst
  · rintro ⟨-, found, hfound, rfl⟩
    obtain ⟨first, hfirst, hrest⟩ := Result.bind_eq_ok.1 hfound
    refine Result.bind_eq_ok.2 ⟨first, ?_, Result.bind_eq_ok.2 ⟨found, hrest, rfl⟩⟩
    cases profile <;> exact hfirst

/-- What a successful search accepted. -/
theorem collectMatches_eq_ok {accepted : List Match}
    (h : collectMatches engine input profile = .ok accepted) :
    input.length ≤ maxInputBytes ∧ Possible engine profile ∧
      (allSpans engine input profile).length ≤ maxMatches ∧
      accepted.map Match.span = sweep (allSpans engine input profile) := by
  obtain ⟨hlength, found, hfound, rfl⟩ := collectMatches_iff.1 h
  have hadds := adds_found engine input profile
  obtain ⟨hpossible, hroom, hspans⟩ := hadds.eq_ok [] found hfound
  have hspans : found.map Match.span = allSpans engine input profile := hspans
  refine ⟨hlength, hpossible, ?_, ?_⟩
  · rw [← hspans, List.length_map]
    exact hroom (Nat.zero_le _)
  · have hlt : ∀ m ∈ found, m.start < m.stop := fun m hm =>
      lt_of_mem_allSpans (hspans ▸ List.mem_map_of_mem hm)
    rw [map_accept _ [] 0 fun _ => rfl, map_sorted hlt, hspans, sweep, choose_none]
    rfl

theorem exists_collectMatches (hlength : input.length ≤ maxInputBytes)
    (hpossible : Possible engine profile)
    (hroom : (allSpans engine input profile).length ≤ maxMatches) :
    ∃ accepted, collectMatches engine input profile = .ok accepted := by
  have hadds := adds_found engine input profile
  obtain ⟨found, hfound⟩ := hadds.exists_ok [] hpossible (by simpa using hroom)
  exact ⟨_, collectMatches_iff.2 ⟨hlength, found, hfound, rfl⟩⟩

theorem covered_iff {accepted : List Match} {i : ℕ} :
    Covered accepted i ↔ Covers (accepted.map Match.span) i := by
  constructor
  · rintro ⟨m, hm, hstart, hstop⟩
    exact ⟨m.span, List.mem_map_of_mem hm, hstart, hstop⟩
  · rintro ⟨s, hs, hstart, hstop⟩
    obtain ⟨m, hm, rfl⟩ := List.mem_map.1 hs
    exact ⟨m, hm, hstart, hstop⟩

/-- Where all that is found in a part of a text is what is found in the text, cut short, the search
in the part succeeds as well, and it covers the same. -/
theorem exists_covered_part {text part : Bytes} {n : ℕ} (hle : part.length ≤ text.length)
    (hspans : allSpans engine part profile = clip n (allSpans engine text profile))
    {accepted : List Match} (h : collectMatches engine text profile = .ok accepted) :
    ∃ accepted', collectMatches engine part profile = .ok accepted' ∧
      ∀ i < n, Covered accepted' i ↔ Covered accepted i := by
  obtain ⟨hlength, hpossible, hroom, haccepted⟩ := collectMatches_eq_ok h
  have hroom' : (allSpans engine part profile).length ≤ maxMatches := by
    rw [hspans]
    exact (length_clip_le _ _).trans hroom
  obtain ⟨accepted', h'⟩ := exists_collectMatches (hle.trans hlength) hpossible hroom'
  obtain ⟨-, -, -, haccepted'⟩ := collectMatches_eq_ok h'
  refine ⟨accepted', h', fun i hi => ?_⟩
  rw [covered_iff, covered_iff, haccepted, haccepted', hspans, covers_sweep_clip hi]

end Accepted

end EraseMe.Redaction
