import EraseMe.Redaction.Review

/-!
# Matches that overlap

`collectMatches` goes through the matches by their start, the longer one first, and drops a match
that starts inside the one accepted before it.  So the first octet of every occurrence of a profile
value is always replaced, but the end of an occurrence that starts inside a match may stay
(`literal_covered`, `tail_survives`).
-/

namespace EraseMe.Redaction

/-! ### The occurrences of a value -/

/-- The well-formed parts of the input from `offset` on, with where they start. -/
def textParts (input : Bytes) : ℕ → ℕ → List (ℕ × Bytes)
  | 0, _ => []
  | fuel + 1, offset =>
      if offset ≥ input.length then []
      else
        let remainder := input.drop offset
        let validLen := validUpTo remainder.length remainder
        let invalidLen := (Utf8.next (remainder.drop validLen)).2
        (offset, remainder.take validLen) ::
          if validLen = remainder.length then []
          else textParts input fuel (min (offset + (validLen + max invalidLen 1)) input.length)

/-- Where the search for a value finds it: from the first number to the second. -/
def occurrences (engine : Engine) (input : Bytes) (value : String) : List (ℕ × ℕ) :=
  if value = "" then []
  else if isAscii value then
    match engine.asciiLiteral value with
    | none => []
    | some search => (search input).map fun span => (span.start, span.stop)
  else
    match engine.textLiteral value with
    | none => []
    | some search =>
        (textParts input (input.length + 1) 0).flatMap fun part =>
          (search part.2).map fun span => (part.1 + span.start, part.1 + span.stop)

/-- The values of a profile that are searched for. -/
def literals (profile : RedactionProfile) : List String :=
  profile.emailAddresses ++ profile.phoneNumbers ++ profile.fullName :: profile.nameVariants ++
    profile.addresses.flatMap fun a => [a.street, a.city, a.postalCode]

section Append

variable {engine : Engine} {input : Bytes} {out out' : List Match} {name : String}

theorem pushMatch_eq_ok {item : Match} (h : pushMatch out item = .ok out') :
    out' = out ++ [item] := by
  unfold pushMatch at h
  split_ifs at h
  exact (Except.ok.inj h).symm

theorem foldlM_push {α : Type} {f : α → Match} {l : List α}
    (h : l.foldlM (fun out a => pushMatch out (f a)) out = .ok out') :
    out' = out ++ l.map f := by
  induction l generalizing out with
  | nil =>
    cases h
    simp
  | cons a l ih =>
    obtain ⟨mid, hmid, hrest⟩ := Result.foldlM_cons_eq_ok.1 h
    rw [ih hrest, pushMatch_eq_ok hmid]
    simp

theorem appendTextLiteral_eq_ok {search : (text : Bytes) → List (Span text.length)}
    {replacement : Bytes} {fuel offset : ℕ}
    (h : appendTextLiteral search input name replacement fuel offset out = .ok out') :
    out' = out ++ (textParts input fuel offset).flatMap fun part =>
      (search part.2).map (matchAt input part.1 name replacement) := by
  induction fuel generalizing offset out with
  | zero =>
    cases h
    simp [textParts]
  | succ fuel ih =>
    rw [appendTextLiteral] at h
    rw [textParts]
    by_cases hoffset : offset ≥ input.length
    · rw [if_pos hoffset] at h
      cases h
      simp [hoffset]
    rw [if_neg hoffset] at h
    rw [if_neg hoffset]
    obtain ⟨mid, hmid, hrest⟩ := Result.bind_eq_ok.1 h
    have hmid' := foldlM_push hmid
    split_ifs at hrest with hall
    · cases hrest
      rw [hmid', List.flatMap_cons, if_pos hall, List.flatMap_nil, List.append_nil]
    · rw [ih hrest, hmid', List.flatMap_cons, if_neg hall, List.append_assoc]

/-- What a value adds: a match for each of its occurrences. -/
theorem appendLiteral_eq_ok {replacement value : String}
    (h : appendLiteral engine input name replacement out value = .ok out') :
    out' = out ++ (occurrences engine input value).map fun occurrence =>
      ⟨name, occurrence.1, occurrence.2, slice input occurrence.1 occurrence.2,
        ascii replacement⟩ := by
  unfold appendLiteral at h
  unfold occurrences
  split_ifs at h with hempty hbad hascii
  · cases h
    simp [hempty]
  · rw [if_neg hempty, if_pos hascii]
    cases hsearch : engine.asciiLiteral value with
    | none => simp [hsearch] at h
    | some search =>
      simp only [hsearch] at h
      rw [foldlM_push h, List.map_map]
      congr 2
      funext span
      simp [matchAt]
  · rw [if_neg hempty, if_neg hascii]
    cases hsearch : engine.textLiteral value with
    | none => simp [hsearch] at h
    | some search =>
      simp only [hsearch] at h
      rw [appendTextLiteral_eq_ok h, List.map_flatMap]
      congr 2
      funext part
      rw [List.map_map]
      rfl

/-! ### What is found stays -/

theorem prefix_appendLiteral {replacement value : String}
    (h : appendLiteral engine input name replacement out value = .ok out') : out <+: out' := by
  rw [appendLiteral_eq_ok h]
  exact List.prefix_append _ _

theorem prefix_foldlM {α : Type} {f : List Match → α → Except RedactionError (List Match)}
    (hf : ∀ s a t, f s a = .ok t → s <+: t) {l : List α} (h : l.foldlM f out = .ok out') :
    out <+: out' :=
  Result.foldlM_invariant (P := fun t => out <+: t)
    (fun s a _ t hs ht => hs.trans (hf s a t ht)) List.prefix_rfl h

/-- What one step adds is there after the loop. -/
theorem subset_foldlM {α : Type} {f : List Match → α → Except RedactionError (List Match)}
    (hf : ∀ s a t, f s a = .ok t → s <+: t) {l : List α} (h : l.foldlM f out = .ok out') {a : α}
    (ha : a ∈ l) : ∃ s t, f s a = .ok t ∧ t <+: out' := by
  obtain ⟨s, t, rest, hstep, hrest⟩ := Result.exists_step_of_foldlM h ha
  exact ⟨s, t, hstep, prefix_foldlM hf hrest⟩

theorem prefix_appendAddress {address : Address}
    (h : appendAddress engine input out address = .ok out') : out <+: out' := by
  obtain ⟨out₁, h₁, hrest⟩ := Result.bind_eq_ok.1 h
  obtain ⟨out₂, h₂, h₃⟩ := Result.bind_eq_ok.1 hrest
  exact ((prefix_appendLiteral h₁).trans (prefix_appendLiteral h₂)).trans (prefix_appendLiteral h₃)

theorem prefix_appendRule {rule : Rule} (h : appendRule engine input out rule = .ok out') :
    out <+: out' := by
  refine prefix_foldlM (fun s span t ht => ?_) h
  unfold appendFound at ht
  dsimp only at ht
  split_ifs at ht
  · cases ht
    exact List.prefix_rfl
  · cases ht
    exact List.prefix_rfl
  · rw [pushMatch_eq_ok ht]
    exact List.prefix_append _ _

/-- The matches hold one for each occurrence of the value. -/
def Holds (engine : Engine) (input : Bytes) (value : String) (items : List Match) : Prop :=
  ∀ occurrence ∈ occurrences engine input value,
    ∃ m ∈ items, m.start = occurrence.1 ∧ m.stop = occurrence.2

variable {value : String}

theorem Holds.mono {items items' : List Match} (h : Holds engine input value items)
    (hsub : items ⊆ items') : Holds engine input value items' := by
  intro occurrence hocc
  obtain ⟨m, hm, hspan⟩ := h occurrence hocc
  exact ⟨m, hsub hm, hspan⟩

theorem holds_appendLiteral {replacement : String}
    (h : appendLiteral engine input name replacement out value = .ok out') :
    Holds engine input value out' := by
  intro occurrence hocc
  rw [appendLiteral_eq_ok h]
  exact ⟨_, List.mem_append_right _ (List.mem_map_of_mem hocc), rfl, rfl⟩

theorem holds_appendLiterals {replacement : String} {values : List String}
    (h : values.foldlM (appendLiteral engine input name replacement) out = .ok out')
    (hvalue : value ∈ values) : Holds engine input value out' := by
  obtain ⟨s, t, hstep, hsub⟩ := subset_foldlM (fun _ _ _ => prefix_appendLiteral) h hvalue
  exact (holds_appendLiteral hstep).mono hsub.subset

theorem holds_appendAddress {address : Address}
    (h : appendAddress engine input out address = .ok out')
    (hvalue : value ∈ [address.street, address.city, address.postalCode]) :
    Holds engine input value out' := by
  obtain ⟨out₁, h₁, hrest⟩ := Result.bind_eq_ok.1 h
  obtain ⟨out₂, h₂, h₃⟩ := Result.bind_eq_ok.1 hrest
  simp only [List.mem_cons, List.not_mem_nil, or_false] at hvalue
  rcases hvalue with rfl | rfl | rfl
  · exact (holds_appendLiteral h₁).mono
      ((prefix_appendLiteral h₂).trans (prefix_appendLiteral h₃)).subset
  · exact (holds_appendLiteral h₂).mono (prefix_appendLiteral h₃).subset
  · exact holds_appendLiteral h₃

/-- Every occurrence of a profile value is found. -/
theorem holds_appendProfile {profile : RedactionProfile}
    (h : appendProfile engine input profile out = .ok out') (hvalue : value ∈ literals profile) :
    Holds engine input value out' := by
  obtain ⟨out₁, h₁, hrest₁⟩ := Result.bind_eq_ok.1 h
  obtain ⟨out₂, h₂, hrest₂⟩ := Result.bind_eq_ok.1 hrest₁
  obtain ⟨out₃, h₃, hrest₃⟩ := Result.bind_eq_ok.1 hrest₂
  obtain ⟨out₄, h₄, h₅⟩ := Result.bind_eq_ok.1 hrest₃
  have hphones := prefix_foldlM (fun _ _ _ => prefix_appendLiteral) h₂
  have hname := prefix_appendLiteral h₃
  have hvariants := prefix_foldlM (fun _ _ _ => prefix_appendLiteral) h₄
  have haddresses := prefix_foldlM (fun _ _ _ => prefix_appendAddress) h₅
  simp only [literals, List.mem_append, List.mem_cons, List.mem_flatMap] at hvalue
  rcases hvalue with ((hemail | hphone) | rfl | hvariant) | ⟨address, haddress, hpart⟩
  · exact (holds_appendLiterals h₁ hemail).mono
      (((hphones.trans hname).trans hvariants).trans haddresses).subset
  · exact (holds_appendLiterals h₂ hphone).mono ((hname.trans hvariants).trans haddresses).subset
  · exact (holds_appendLiteral h₃).mono (hvariants.trans haddresses).subset
  · exact (holds_appendLiterals h₄ hvariant).mono haddresses.subset
  · obtain ⟨s, t, hstep, hsub⟩ := subset_foldlM (fun _ _ _ => prefix_appendAddress) h₅ haddress
    exact (holds_appendAddress hstep (by simpa using hpart)).mono hsub.subset

end Append

/-! ### What is accepted -/

section Accept

variable {items : List Match}

theorem comesFirst_iff {a b : Match} : comesFirst a b = true ↔
    a.start < b.start ∨ a.start = b.start ∧ b.stop - b.start ≤ a.stop - a.start := by
  simp [comesFirst]

theorem comesFirst_total (a b : Match) : comesFirst a b = true ∨ comesFirst b a = true := by
  rw [comesFirst_iff, comesFirst_iff]
  omega

theorem comesFirst_trans {a b c : Match} (hab : comesFirst a b = true)
    (hbc : comesFirst b c = true) : comesFirst a c = true := by
  rw [comesFirst_iff] at *
  omega

/-- The loop keeps what it has accepted. -/
theorem subset_foldl_accept (items : List Match) (acc : List Match × ℕ) :
    acc.1 ⊆ (items.foldl accept acc).1 := by
  induction items generalizing acc with
  | nil => exact List.Subset.refl _
  | cons item items ih =>
    refine List.Subset.trans ?_ (ih (accept acc item))
    unfold accept
    split_ifs
    · exact List.subset_append_left _ _
    · exact List.Subset.refl _

/-- A match of an ordered list is accepted, or it starts inside an accepted one that comes first. -/
theorem foldl_accept_covers (acc : List Match × ℕ)
    (hsorted : items.Pairwise fun a b => comesFirst a b = true)
    (hacc : ∀ a ∈ acc.1, ∀ m ∈ items, comesFirst a m = true)
    (hlast : acc.1 ≠ [] → ∃ a ∈ acc.1, a.stop = acc.2) {m : Match} (hm : m ∈ items) :
    m ∈ (items.foldl accept acc).1 ∨
      ∃ a ∈ (items.foldl accept acc).1, comesFirst a m = true ∧ m.start < a.stop := by
  induction items generalizing acc with
  | nil => cases hm
  | cons item items ih =>
    rw [List.pairwise_cons] at hsorted
    obtain ⟨hitem, hsorted⟩ := hsorted
    rw [List.foldl_cons]
    have hkept := subset_foldl_accept items (accept acc item)
    by_cases htaken : acc.1 = [] ∨ item.start ≥ acc.2
    · have hstep : accept acc item = (acc.1 ++ [item], item.stop) := if_pos htaken
      rw [hstep] at hkept ⊢
      rcases List.mem_cons.1 hm with rfl | hm
      · exact Or.inl (hkept (by simp))
      · refine ih _ hsorted (fun a ha b hb => ?_) (fun _ => ⟨item, by simp, rfl⟩) hm
        rcases List.mem_append.1 ha with ha | ha
        · exact hacc a ha b (List.mem_cons_of_mem _ hb)
        · rw [List.mem_singleton.1 ha]
          exact hitem b hb
    -- dropped: it starts before the end of the match that was accepted last
    · have hstep : accept acc item = acc := if_neg htaken
      rw [hstep] at hkept ⊢
      rcases List.mem_cons.1 hm with rfl | hm
      · push Not at htaken
        obtain ⟨a, ha, hstop⟩ := hlast htaken.1
        exact Or.inr ⟨a, hkept ha, hacc a ha m List.mem_cons_self, hstop ▸ htaken.2⟩
      · exact ih _ hsorted (fun a ha b hb => hacc a ha b (List.mem_cons_of_mem _ hb)) hlast hm

end Accept

/-! ### The octets of a profile value -/

section Cover

variable {engine : Engine} {input : Bytes} {profile : RedactionProfile} {accepted : List Match}

/-- The octet at `p` is replaced. -/
def Covered (accepted : List Match) (p : ℕ) : Prop := ∃ m ∈ accepted, m.start ≤ p ∧ p < m.stop

/-- The matches of a profile value are among those that are sorted and accepted. -/
theorem exists_found (h : collectMatches engine input (some profile) = .ok accepted) :
    ∃ found : List Match, (∀ value ∈ literals profile, Holds engine input value found) ∧
      (∀ m ∈ found, Fits input m) ∧
      accepted = ((found.insertionSort fun a b => comesFirst a b).foldl accept ([], 0)).1 := by
  unfold collectMatches at h
  by_cases hlarge : input.length > maxInputBytes
  · rw [if_pos hlarge] at h
    cases h
  rw [if_neg hlarge] at h
  obtain ⟨found, hfound, hrest⟩ := Result.bind_eq_ok.1 h
  obtain ⟨all, hall, hdone⟩ := Result.bind_eq_ok.1 hrest
  obtain ⟨_, -, hliterals⟩ := Result.bind_eq_ok.1 hfound
  have hnil : Found input [] := ⟨by simp [maxMatches], fun _ h => by cases h⟩
  have hfits : Found input all := Result.foldlM_invariant (P := Found input)
    (fun _ _ _ _ hs ht => hs.appendRule ht) (hnil.appendProfile hliterals) hall
  have hkept := prefix_foldlM (fun _ _ _ => prefix_appendRule) hall
  cases hdone
  exact ⟨all, fun value hvalue => (holds_appendProfile hliterals hvalue).mono hkept.subset,
    hfits.fits, rfl⟩

/-- Redaction replaces the accepted matches.  An octet of an occurrence of a profile value is in one
of them, unless the occurrence starts inside an accepted match that ends before the octet. -/
theorem literal_covered (h : collectMatches engine input (some profile) = .ok accepted) :
    redactBytes engine input (some profile) =
        .ok (Splice.replaceAll input (accepted.map Match.edit)) ∧
      ∀ value ∈ literals profile, ∀ occurrence ∈ occurrences engine input value,
        ∀ p, occurrence.1 ≤ p → p < occurrence.2 → Covered accepted p ∨
          ∃ m ∈ accepted, m.start < occurrence.1 ∧ occurrence.1 < m.stop ∧ m.stop ≤ p := by
  refine ⟨redactBytes_eq h, fun value hvalue occurrence hocc p hp hlt => ?_⟩
  obtain ⟨found, hholds, hfits, haccepted⟩ := exists_found h
  obtain ⟨m, hm, hstart, hstop⟩ := hholds value hvalue occurrence hocc
  have hsorted : (found.insertionSort fun a b => comesFirst a b = true).Pairwise
      fun a b => comesFirst a b = true := by
    have : Std.Total fun a b => comesFirst a b = true := ⟨comesFirst_total⟩
    have : IsTrans Match fun a b => comesFirst a b = true := ⟨fun _ _ _ => comesFirst_trans⟩
    exact List.pairwise_insertionSort _ found
  have hmem : m ∈ found.insertionSort fun a b => comesFirst a b = true :=
    (List.mem_insertionSort _).2 hm
  have hcovers := foldl_accept_covers ([], 0) hsorted (fun a ha => by cases ha)
    (fun hne => absurd rfl hne) hmem
  rw [← haccepted] at hcovers
  rcases hcovers with haccept | ⟨a, ha, hfirst, hinside⟩
  · exact Or.inl ⟨m, haccept, by omega, by omega⟩
  · rw [comesFirst_iff] at hfirst
    have hm' := (hfits m hm).lt
    -- the match that comes first starts earlier, or at the same place and is no shorter
    by_cases hcover : p < a.stop
    · exact Or.inl ⟨a, ha, by omega, hcover⟩
    · exact Or.inr ⟨a, ha, by omega, by omega, by omega⟩

end Cover

/-! ### A name that overlaps a variant -/

def toAsciiLowercase (b : UInt8) : UInt8 := if 65 ≤ b ∧ b ≤ 90 then b + 32 else b

/-- Where a value occurs in a text from `offset` on, without regard to case. -/
def startsOf (value : Bytes) : ℕ → ℕ → Bytes → List ℕ
  | 0, _, _ => []
  | _, _, [] => []
  | fuel + 1, offset, b :: text =>
      if ((b :: text).take value.length).map toAsciiLowercase = value.map toAsciiLowercase then
        offset :: startsOf value fuel (offset + value.length) ((b :: text).drop value.length)
      else startsOf value fuel (offset + 1) text

/-- Where a value stands. -/
def spansOf (value text : Bytes) : List (Span text.length) :=
  (startsOf value text.length 0 text).filterMap fun i =>
    if h : i < i + value.length ∧ i + value.length ≤ text.length then
      some ⟨i, i + value.length, h.1, h.2⟩
    else none

/-- Literals are searched for; no rule finds anything. -/
def nameEngine : Engine where
  rule _ _ := []
  asciiLiteral value := some (spansOf (ascii value))
  textLiteral value := some (spansOf (ascii value))
  identifier _ := none

def nameProfile : RedactionProfile :=
  { fullName := "Anna Maria", nameVariants := ["Maria Schmidt"] }

def nameText : Bytes := ascii "Anna Maria Schmidt"

/-- The variant starts inside the full name and is dropped, so that its end stays. -/
theorem tail_survives : ∃ accepted,
    collectMatches nameEngine nameText (some nameProfile) = .ok accepted ∧
      (∃ value ∈ literals nameProfile, ∃ occurrence ∈ occurrences nameEngine nameText value,
        ∃ p, occurrence.1 ≤ p ∧ p < occurrence.2 ∧ ¬ Covered accepted p) ∧
      redactBytes nameEngine nameText (some nameProfile) =
        .ok (ascii "[REDACTED-NAME] Schmidt") := by
  refine ⟨[⟨"Profile Name", 0, 10, ascii "Anna Maria", ascii "[REDACTED-NAME]"⟩], by decide,
    ⟨"Maria Schmidt", by decide, (5, 18), by decide, 12, by decide, by decide, ?_⟩,
    by decide⟩
  rintro ⟨m, hm, -, hp⟩
  rw [List.mem_singleton.1 hm] at hp
  exact absurd hp (by decide)

/-- With the full name alone nothing of it stays. -/
theorem literal_covered_name :
    redactBytes nameEngine nameText (some { fullName := "anna maria" }) =
        .ok (ascii "[REDACTED-NAME] Schmidt") ∧
      ∀ p, p < 10 → Covered
        [⟨"Profile Name", 0, 10, ascii "Anna Maria", ascii "[REDACTED-NAME]"⟩] p := by
  have h : collectMatches nameEngine nameText (some { fullName := "anna maria" }) =
      .ok [⟨"Profile Name", 0, 10, ascii "Anna Maria", ascii "[REDACTED-NAME]"⟩] := by
    decide
  obtain ⟨hredact, hcover⟩ := literal_covered h
  refine ⟨hredact.trans (by decide), fun p hp => ?_⟩
  have hcases := hcover "anna maria" (by decide) (0, 10) (by decide) p
    (Nat.zero_le p) hp
  rcases hcases with hcover | ⟨m, hm, hstart, -, -⟩
  · exact hcover
  · exact absurd hstart (Nat.not_lt_zero _)

end EraseMe.Redaction
