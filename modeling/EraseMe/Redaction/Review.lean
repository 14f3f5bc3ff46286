import EraseMe.Redaction.Pii
import EraseMe.Library.Splice

/-!
# `redaction::review`: redaction by decision

`reviewBytes` asks for a decision on each match and splices in the replacements of those answered
`redact`.  The matches that `collectMatches` returns are in order, apart and small (`Collected`),
so that neither loop can fail on them; both then make the same edits (`review_agrees`).
-/

namespace EraseMe.Redaction

open Splice

/-- What is decided of a match. -/
inductive Action
  | keep
  | redact
  | skip
  | quit
  deriving DecidableEq, Repr

/-- What a review gives. -/
structure ReviewResult where
  output : Bytes
  changed : Bool
  quit : Bool
  redacted : ℕ
  kept : ℕ
  skipped : ℕ
  deriving DecidableEq, Repr

/-- Why a review fails. -/
inductive ReviewError
  | invalidMatch (index : ℕ)
  | outputTooLarge
  | redaction (error : RedactionError)
  deriving DecidableEq, Repr

/-- Check one match against the end of the one before and the length of the output so far. -/
def validateMatch (input : Bytes) (acc : ℕ × ℕ) (entry : Match × ℕ) :
    Except ReviewError (ℕ × ℕ) :=
  let (lastEnd, length) := acc
  let (item, index) := entry
  if item.start < lastEnd ∨ item.start ≥ item.stop ∨ item.stop > input.length ∨
      get input item.start item.stop ≠ some item.value ∨
      item.replacement.length > maxOutputBytes then
    .error (.invalidMatch index)
  else
    match outputLength length item with
    | none => .error .outputTooLarge
    | some length =>
        if length > maxOutputBytes then .error .outputTooLarge else .ok (item.stop, length)

/-- Check all matches. -/
def validateMatches (input : Bytes) (items : List Match) : Except ReviewError Unit := do
  let _ ← items.zipIdx.foldlM (validateMatch input) (0, input.length)
  .ok ()

/-- The state of the loop: what was put out, up to where, and the counts. -/
structure Review where
  output : Bytes
  position : ℕ
  result : ReviewResult

/-- The loop over the matches; the decision may depend on the number of matches before. -/
def reviewLoop (input : Bytes) (decide : ℕ → Match → Action) :
    ℕ → List Match → Review → Except ReviewError Review
  | _, [], s => .ok s
  | k, item :: items, s =>
      match decide k item with
      | .keep => reviewLoop input decide (k + 1) items
          { s with result := { s.result with kept := s.result.kept + 1 } }
      | .skip => reviewLoop input decide (k + 1) items
          { s with result := { s.result with skipped := s.result.skipped + 1 } }
      | .redact =>
          match (checkedAdd s.output.length (item.start - s.position)).bind fun length =>
              checkedAdd length item.replacement.length with
          | none => .error .outputTooLarge
          | some length =>
              if length > maxOutputBytes then .error .outputTooLarge
              else reviewLoop input decide (k + 1) items
                { output := s.output ++ slice input s.position item.start ++ item.replacement
                  position := item.stop
                  result := { s.result with redacted := s.result.redacted + 1, changed := true } }
      | .quit => .ok { s with result := { s.result with quit := true } }

/-- Review the matches; without a callback everything is kept. -/
def reviewBytes (input : Bytes) (items : List Match) (decide : Option (ℕ → Match → Action)) :
    Except ReviewError ReviewResult := do
  if input.length > maxInputBytes then throw (.redaction .inputTooLarge)
  if items.length > maxMatches then throw (.redaction .matchLimit)
  validateMatches input items
  let result : ReviewResult := ⟨input, false, false, 0, 0, 0⟩
  if items = [] then return result
  let s ← reviewLoop input (decide.getD fun _ _ => .keep) 0 items ⟨[], 0, result⟩
  if s.result.changed then
    let output := s.output ++ input.drop s.position
    if output.length > maxOutputBytes then throw .outputTooLarge
    return { s.result with output := output }
  return s.result

/-- The matches answered `redact` before the first `quit`. -/
def chosen (decide : ℕ → Match → Action) : ℕ → List Match → List Match
  | _, [] => []
  | k, item :: items =>
      match decide k item with
      | .quit => []
      | .redact => item :: chosen decide (k + 1) items
      | _ => chosen decide (k + 1) items

/-- A match as an edit. -/
def Match.edit (item : Match) : Edit UInt8 := ⟨item.start, item.stop, item.replacement⟩

/-! ### What is collected -/

/-- The most that a replacement adds to the span it replaces. -/
def growth : ℕ := 17

/-- A match of a text: a span that is not empty, with its octets, and a replacement that is not
much longer. -/
structure Fits (input : Bytes) (item : Match) : Prop where
  lt : item.start < item.stop
  le : item.stop ≤ input.length
  value_eq : item.value = slice input item.start item.stop
  replacement_le : item.replacement.length ≤ item.stop - item.start + growth

/-- Few matches of the text. -/
structure Found (input : Bytes) (items : List Match) : Prop where
  length_le : items.length ≤ maxMatches
  fits : ∀ item ∈ items, Fits input item

/-- Few matches of the text, in order and apart. -/
structure Collected (input : Bytes) (items : List Match) : Prop extends Found input items where
  input_le : input.length ≤ maxInputBytes
  apart : Apart input.length 0 (items.map Match.edit)

variable {engine : Engine} {input : Bytes} {out out' : List Match}

theorem Found.push (h : Found input out) {item : Match} (hitem : Fits input item)
    (hpush : pushMatch out item = .ok out') : Found input out' := by
  unfold pushMatch at hpush
  split_ifs at hpush with hfull
  obtain rfl := Except.ok.inj hpush
  refine ⟨by simp; omega, fun m hm => ?_⟩
  rcases List.mem_append.1 hm with hm | hm
  · exact h.fits m hm
  · rw [List.mem_singleton.1 hm]
    exact hitem

theorem length_slice_le (text : Bytes) (start stop : ℕ) :
    (slice text start stop).length ≤ stop - start := by
  simp only [slice, List.length_take]
  omega

theorem length_filter_digits_le (value : Bytes) :
    (value.filter isAsciiDigit).length ≤ value.length :=
  List.length_filter_le _ _

theorem length_scrubEmail_le (value : Bytes) :
    (scrubEmail value).length ≤ value.length + growth := by
  unfold scrubEmail
  dsimp only
  split_ifs with h1 h2 h3 h3
  · omega
  all_goals
    have hslice := length_slice_le value (value.idxOf 64 - 1) (value.idxOf 64)
    have hidx := List.idxOf_le_length (l := value) (a := 64)
    simp only [List.length_append, List.length_take, List.length_replicate, List.length_drop,
      List.length_cons, List.length_nil, growth]
    omega

theorem length_replace_le (engine : Engine) (kind : Replacement) (value : Bytes) :
    (replace engine kind value).length ≤ value.length + growth := by
  cases kind with
  | email => exact length_scrubEmail_le value
  | phone =>
    have hdigits := length_filter_digits_le value
    have hlong : (ascii "+1-***-***-").length = 11 := by decide
    have hshort : (ascii "***-***-").length = 8 := by decide
    simp only [replace, scrubPhone]
    split_ifs with h1 h2
    · omega
    · simp only [List.length_append, List.length_drop, growth]
      omega
    · simp only [List.length_append, List.length_drop, growth]
      omega
  | ssn =>
    have hlen : (ascii "***-**-****").length = 11 := by decide
    simp only [replace, growth]
    omega
  | iban =>
    have hlen : (ascii "**").length = 2 := by decide
    simp only [replace, maskParts]
    split_ifs with h
    · omega
    · simp only [List.length_append, List.length_take, List.length_replicate, List.length_drop,
        growth]
      omega
  | germanId =>
    simp only [replace, suffixMask]
    split_ifs with h
    · omega
    · simp only [List.length_append, List.length_replicate, List.length_drop, growth]
      omega
  | frenchId =>
    simp only [replace, suffixMask]
    split_ifs with h
    · omega
    · simp only [List.length_append, List.length_replicate, List.length_drop, growth]
      omega
  | spanishId =>
    have hlen : (ascii "****-****-").length = 10 := by decide
    simp only [replace, List.length_append, List.length_singleton, growth]
    omega
  | passport =>
    simp only [replace, scrubPassport]
    split
    · omega
    · next identifier h =>
      have hlt := identifier.lt
      have hle := identifier.le
      split_ifs with h2
      · omega
      · simp only [List.length_append, List.length_take, List.length_replicate, List.length_drop,
          growth]
        omega

theorem fits_matchAt {n offset : ℕ} (hn : offset + n ≤ input.length) (name : String)
    {replacement : Bytes} (hreplacement : replacement.length ≤ growth) (span : Span n) :
    Fits input (matchAt input offset name replacement span) := by
  have hlt := span.lt
  have hle := span.le
  refine ⟨?_, ?_, rfl, ?_⟩
  · show offset + span.start < offset + span.stop
    omega
  · show offset + span.stop ≤ input.length
    omega
  · exact hreplacement.trans (Nat.le_add_left _ _)

theorem validUpTo_le (fuel : ℕ) (s : Bytes) : validUpTo fuel s ≤ s.length := by
  induction fuel generalizing s with
  | zero => simp [validUpTo]
  | succ fuel ih =>
    have hnext := Utf8.next_le s
    rw [validUpTo]
    cases hs : Utf8.next s with
    | mk c n =>
      rw [hs] at hnext
      cases c with
      | none => simp
      | some c =>
        have hrest := ih (s.drop n)
        simp only [List.length_drop] at hrest hnext ⊢
        omega

theorem Found.appendTextLiteral (h : Found input out)
    {search : (text : Bytes) → List (Span text.length)} {name : String} {replacement : Bytes}
    (hreplacement : replacement.length ≤ growth) {fuel offset : ℕ}
    (hout : appendTextLiteral search input name replacement fuel offset out = .ok out') :
    Found input out' := by
  induction fuel generalizing offset out with
  | zero =>
    cases hout
    exact h
  | succ fuel ih =>
    rw [Redaction.appendTextLiteral] at hout
    by_cases hoffset : offset ≥ input.length
    · rw [if_pos hoffset] at hout
      cases hout
      exact h
    rw [if_neg hoffset] at hout
    obtain ⟨mid, hmid, hrest⟩ := Result.bind_eq_ok.1 hout
    have hvalid := validUpTo_le (input.drop offset).length (input.drop offset)
    have hfound : Found input mid := by
      refine Result.foldlM_invariant (P := Found input) (fun s span _ t hs hpush => ?_) h hmid
      refine hs.push (fits_matchAt ?_ name hreplacement span) hpush
      simp only [List.length_take, List.length_drop] at hvalid ⊢
      omega
    split_ifs at hrest with hall
    · cases hrest
      exact hfound
    · exact ih hfound hrest

theorem Found.appendLiteral (h : Found input out) {name replacement value : String}
    (hreplacement : (ascii replacement).length ≤ growth)
    (hout : appendLiteral engine input name replacement out value = .ok out') :
    Found input out' := by
  unfold Redaction.appendLiteral at hout
  split_ifs at hout with hempty hbad hascii
  · cases hout
    exact h
  · cases hsearch : engine.asciiLiteral value with
    | none => simp [hsearch] at hout
    | some search =>
      simp only [hsearch] at hout
      refine Result.foldlM_invariant (P := Found input) (fun s span _ t hs hpush => ?_) h hout
      exact hs.push (fits_matchAt (by omega) name hreplacement span) hpush
  · cases hsearch : engine.textLiteral value with
    | none => simp [hsearch] at hout
    | some search =>
      simp only [hsearch] at hout
      exact h.appendTextLiteral hreplacement hout

theorem Found.appendAddress (h : Found input out) {address : Address}
    (hout : appendAddress engine input out address = .ok out') : Found input out' := by
  obtain ⟨out₁, h₁, hrest⟩ := Result.bind_eq_ok.1 hout
  obtain ⟨out₂, h₂, h₃⟩ := Result.bind_eq_ok.1 hrest
  exact ((h.appendLiteral (by decide) h₁).appendLiteral (by decide) h₂).appendLiteral (by decide) h₃

theorem Found.appendProfile (h : Found input out) {profile : RedactionProfile}
    (hout : appendProfile engine input profile out = .ok out') : Found input out' := by
  obtain ⟨out₁, h₁, hrest₁⟩ := Result.bind_eq_ok.1 hout
  obtain ⟨out₂, h₂, hrest₂⟩ := Result.bind_eq_ok.1 hrest₁
  obtain ⟨out₃, h₃, hrest₃⟩ := Result.bind_eq_ok.1 hrest₂
  obtain ⟨out₄, h₄, h₅⟩ := Result.bind_eq_ok.1 hrest₃
  have hf₁ : Found input out₁ := Result.foldlM_invariant (P := Found input)
    (fun _ _ _ _ hs ht => hs.appendLiteral (by decide) ht) h h₁
  have hf₂ : Found input out₂ := Result.foldlM_invariant (P := Found input)
    (fun _ _ _ _ hs ht => hs.appendLiteral (by decide) ht) hf₁ h₂
  have hf₃ : Found input out₃ := hf₂.appendLiteral (by decide) h₃
  have hf₄ : Found input out₄ := Result.foldlM_invariant (P := Found input)
    (fun _ _ _ _ hs ht => hs.appendLiteral (by decide) ht) hf₃ h₄
  exact Result.foldlM_invariant (P := Found input)
    (fun _ _ _ _ hs ht => hs.appendAddress ht) hf₄ h₅

theorem Found.appendFound (h : Found input out) {rule : Rule} {span : Span input.length}
    (hout : appendFound engine input rule out span = .ok out') : Found input out' := by
  unfold Redaction.appendFound at hout
  dsimp only at hout
  split_ifs at hout with hssn hemail
  · cases hout
    exact h
  · cases hout
    exact h
  · refine h.push ⟨span.lt, span.le, rfl, ?_⟩ hout
    refine (length_replace_le engine rule.replacement _).trans ?_
    have := length_slice_le input span.start span.stop
    dsimp only
    omega

theorem Found.appendRule (h : Found input out) {rule : Rule}
    (hout : appendRule engine input out rule = .ok out') : Found input out' :=
  Result.foldlM_invariant (P := Found input) (fun _ _ _ _ hs ht => hs.appendFound ht) h hout

/-- Accepting keeps the matches apart and takes no more than there are. -/
theorem foldl_accept (items : List Match) (hfits : ∀ item ∈ items, Fits input item)
    (acc : List Match × ℕ) (hacc : ∀ item ∈ acc.1, Fits input item)
    (hapart : Apart input.length 0 (acc.1.map Match.edit))
    (hlast : acc.2 = lastStop 0 (acc.1.map Match.edit)) :
    (∀ item ∈ (items.foldl accept acc).1, Fits input item) ∧
      Apart input.length 0 ((items.foldl accept acc).1.map Match.edit) ∧
      (items.foldl accept acc).1.length ≤ acc.1.length + items.length := by
  induction items generalizing acc with
  | nil => exact ⟨hacc, hapart, le_rfl⟩
  | cons item items ih =>
    have hitem := hfits item List.mem_cons_self
    have hrest := fun item h => hfits item (List.mem_cons_of_mem _ h)
    rw [List.foldl_cons, accept, List.length_cons]
    by_cases htaken : acc.1 = [] ∨ item.start ≥ acc.2
    · rw [if_pos htaken]
      have hstart : lastStop 0 (acc.1.map Match.edit) ≤ item.start := by
        rcases htaken with hnil | hge
        · simp [hnil, lastStop]
        · exact hlast ▸ hge
      have hmem : ∀ m ∈ acc.1 ++ [item], Fits input m := by
        intro m hm
        rcases List.mem_append.1 hm with hm | hm
        · exact hacc m hm
        · rw [List.mem_singleton.1 hm]
          exact hitem
      have hmap : (acc.1 ++ [item]).map Match.edit = acc.1.map Match.edit ++ [item.edit] := by simp
      obtain ⟨h1, h2, h3⟩ := ih hrest (acc.1 ++ [item], item.stop) hmem
        (hmap ▸ hapart.concat hstart hitem.lt hitem.le) (by rw [hmap, lastStop_concat]; rfl)
      refine ⟨h1, h2, h3.trans ?_⟩
      simp [Nat.add_assoc, Nat.add_comm 1]
    · rw [if_neg htaken]
      obtain ⟨h1, h2, h3⟩ := ih hrest acc hacc hapart hlast
      exact ⟨h1, h2, h3.trans (by omega)⟩

theorem collected {profile : Option RedactionProfile} {items : List Match}
    (h : collectMatches engine input profile = .ok items) : Collected input items := by
  unfold collectMatches at h
  by_cases hlarge : input.length > maxInputBytes
  · rw [if_pos hlarge] at h
    cases h
  rw [if_neg hlarge] at h
  obtain ⟨found, hfound, hrest⟩ := Result.bind_eq_ok.1 h
  obtain ⟨all, hall, hdone⟩ := Result.bind_eq_ok.1 hrest
  have hnil : Found input [] := ⟨by simp [maxMatches], fun _ h => by cases h⟩
  have hprofile : Found input found := by
    cases profile with
    | none =>
      cases hfound
      exact hnil
    | some profile =>
      obtain ⟨_, -, hlit⟩ := Result.bind_eq_ok.1 hfound
      exact hnil.appendProfile hlit
  have hrules : Found input all := Result.foldlM_invariant (P := Found input)
    (fun _ _ _ _ hs ht => hs.appendRule ht) hprofile hall
  cases hdone
  have hsorted : ∀ item ∈ all.insertionSort fun a b => comesFirst a b = true, Fits input item :=
    fun item hitem => hrules.fits item ((List.mem_insertionSort _).1 hitem)
  obtain ⟨hfits, hapart, hlen⟩ := foldl_accept _ hsorted ([], 0) (fun _ h => by cases h)
    (Nat.zero_le _) rfl
  refine ⟨⟨hlen.trans ?_, hfits⟩, not_lt.1 hlarge, hapart⟩
  simpa using hrules.length_le

/-! ### The two loops -/

/-- The length check of a match that lies apart: what is left of the input is still counted. -/
theorem outputLength_eq {length p : ℕ} {item : Match} (hitem : Fits input item)
    (hp : p ≤ item.start) (hlow : input.length ≤ length + p)
    (hhigh : length + growth ≤ maxOutputBytes) :
    ∃ length', outputLength length item = some length' ∧ input.length ≤ length' + item.stop ∧
      length' ≤ length + growth := by
  have hlt := hitem.lt
  have hle := hitem.le
  have hgrow := hitem.replacement_le
  refine ⟨length - (item.stop - item.start) + item.replacement.length, ?_, ?_, ?_⟩
  · rw [outputLength, checkedSub, if_pos (by omega), Option.bind_some, checkedAdd, if_pos]
    simp only [maxOutputBytes, usizeMax] at hhigh ⊢
    omega
  · omega
  · omega

theorem checkLength_fold {items : List Match} {p length : ℕ}
    (hfits : ∀ item ∈ items, Fits input item) (hapart : Apart input.length p (items.map Match.edit))
    (hlow : input.length ≤ length + p)
    (hhigh : length + growth * items.length ≤ maxOutputBytes) :
    ∃ length', items.foldlM checkLength length = .ok length' := by
  induction items generalizing p length with
  | nil => exact ⟨length, rfl⟩
  | cons item items ih =>
    obtain ⟨hp, hlt, hrest⟩ := hapart
    rw [List.length_cons, Nat.mul_add, Nat.mul_one] at hhigh
    obtain ⟨length', hlength, hlow', hhigh'⟩ := outputLength_eq
      (hfits item List.mem_cons_self) hp hlow (by omega)
    obtain ⟨final, hfinal⟩ := ih (fun item h => hfits item (List.mem_cons_of_mem _ h)) hrest hlow'
      (by omega)
    refine ⟨final, ?_⟩
    rw [Result.foldlM_cons_eq_ok]
    refine ⟨length', ?_, hfinal⟩
    simp only [checkLength, hlength]
    rw [if_neg (by omega)]

theorem validateMatch_fold {items : List Match} {p length k : ℕ}
    (hfits : ∀ item ∈ items, Fits input item) (hapart : Apart input.length p (items.map Match.edit))
    (hlow : input.length ≤ length + p) (hinput : input.length ≤ maxInputBytes)
    (hhigh : length + growth * items.length ≤ maxOutputBytes) :
    ∃ acc, (items.zipIdx k).foldlM (validateMatch input) (p, length) = .ok acc := by
  induction items generalizing p length k with
  | nil => exact ⟨(p, length), rfl⟩
  | cons item items ih =>
    obtain ⟨hp, hlt, hrest⟩ := hapart
    have hitem := hfits item List.mem_cons_self
    rw [List.length_cons, Nat.mul_add, Nat.mul_one] at hhigh
    obtain ⟨length', hlength, hlow', hhigh'⟩ := outputLength_eq hitem hp hlow (by omega)
    obtain ⟨final, hfinal⟩ := ih (k := k + 1) (fun item h => hfits item (List.mem_cons_of_mem _ h))
      hrest hlow' (by omega)
    refine ⟨final, ?_⟩
    rw [List.zipIdx_cons, Result.foldlM_cons_eq_ok]
    refine ⟨(item.stop, length'), ?_, hfinal⟩
    have hsmall : item.replacement.length ≤ maxOutputBytes := by
      have := hitem.replacement_le
      have := hitem.le
      simp only [maxInputBytes, maxOutputBytes, growth] at *
      omega
    have hvalue : get input item.start item.stop = some item.value := by
      rw [get, if_pos ⟨hitem.lt.le, hitem.le⟩, hitem.value_eq]
    simp only [validateMatch, hlength]
    rw [if_neg, if_neg (by omega)]
    · have hp' : p ≤ item.start := hp
      have := hitem.lt
      have := hitem.le
      rintro (h | h | h | h | h)
      · omega
      · omega
      · omega
      · exact h hvalue
      · omega

/-- The loop of `redact_bytes` splices. -/
theorem emit_fold {items : List Match} {p : ℕ} (output : Bytes)
    (hapart : Apart input.length p (items.map Match.edit)) :
    ∃ output' p', items.foldlM (emit input) (output, p) = .ok (output', p') ∧ p' ≤ input.length ∧
      output' ++ input.drop p' = output ++ splice input p (items.map Match.edit) := by
  induction items generalizing p output with
  | nil => exact ⟨output, p, rfl, hapart, rfl⟩
  | cons item items ih =>
    obtain ⟨hp, hlt, hrest⟩ := hapart
    have hle : item.start ≤ input.length := by
      have := hrest.le
      simp only [Match.edit] at this hlt
      omega
    obtain ⟨output', p', hfold, hp', heq⟩ :=
      ih (output ++ slice input p item.start ++ item.replacement) hrest
    refine ⟨output', p', ?_, hp', ?_⟩
    · rw [Result.foldlM_cons_eq_ok]
      refine ⟨_, ?_, hfold⟩
      simp only [emit, get]
      rw [if_pos ⟨hp, hle⟩]
      rfl
    · rw [heq]
      simp [splice, slice, Match.edit]

/-- The loop of `review_bytes` splices what is chosen. -/
theorem reviewLoop_eq (decide : ℕ → Match → Action) {items : List Match} {k : ℕ} {s : Review}
    (hfits : ∀ item ∈ items, Fits input item)
    (hapart : Apart input.length s.position (items.map Match.edit))
    (hhigh : s.output.length + (input.length - s.position) + growth * items.length ≤
      maxOutputBytes) :
    ∃ s', reviewLoop input decide k items s = .ok s' ∧
      s'.output ++ input.drop s'.position =
        s.output ++ splice input s.position ((chosen decide k items).map Match.edit) ∧
      s'.result.output = s.result.output ∧
      (s'.result.changed = true ↔ s.result.changed = true ∨ chosen decide k items ≠ []) := by
  induction items generalizing k s with
  | nil => exact ⟨s, rfl, rfl, rfl, by simp [chosen]⟩
  | cons item items ih =>
    obtain ⟨hp, hlt, hrest⟩ := hapart
    have hfits' := fun item h => hfits item (List.mem_cons_of_mem _ h)
    have hskip : Apart input.length s.position (items.map Match.edit) :=
      hrest.mono (hp.trans hlt.le)
    rw [List.length_cons, Nat.mul_add, Nat.mul_one] at hhigh
    rw [reviewLoop, chosen]
    cases decide k item with
    | keep =>
      exact ih (s := { s with result := { s.result with kept := s.result.kept + 1 } }) hfits' hskip
        (by dsimp only; omega)
    | skip =>
      exact ih (s := { s with result := { s.result with skipped := s.result.skipped + 1 } }) hfits'
        hskip (by dsimp only; omega)
    | quit => exact ⟨_, rfl, rfl, rfl, by simp⟩
    | redact =>
      have hp' : s.position ≤ item.start := hp
      have hitem := hfits item List.mem_cons_self
      have hgrow := hitem.replacement_le
      have hstart := hitem.lt
      have hstop := hitem.le
      have hsmall : s.output.length + (item.start - s.position) + item.replacement.length ≤
          maxOutputBytes := by omega
      have hslice : (slice input s.position item.start).length = item.start - s.position := by
        simp only [slice, List.length_take, List.length_drop]
        omega
      have hlength : ((checkedAdd s.output.length (item.start - s.position)).bind fun length =>
          checkedAdd length item.replacement.length) =
            some (s.output.length + (item.start - s.position) + item.replacement.length) := by
        simp only [maxOutputBytes] at hsmall
        rw [checkedAdd, if_pos (by simp only [usizeMax]; omega), Option.bind_some, checkedAdd,
          if_pos (by simp only [usizeMax]; omega)]
      obtain ⟨s', hloop, heq, hout, hchanged⟩ := ih (k := k + 1)
        (s := { output := s.output ++ slice input s.position item.start ++ item.replacement
                position := item.stop
                result := { s.result with redacted := s.result.redacted + 1, changed := true } })
        hfits' hrest (by
          simp only [List.length_append, hslice]
          omega)
      refine ⟨s', ?_, ?_, hout, ?_⟩
      · simp only [hlength]
        rw [if_neg (by omega)]
        exact hloop
      · rw [heq]
        simp [splice, slice, Match.edit]
      · simp [hchanged]

theorem chosen_sublist (decide : ℕ → Match → Action) (k : ℕ) (items : List Match) :
    (chosen decide k items).Sublist items := by
  induction items generalizing k with
  | nil => exact List.Sublist.slnil
  | cons item items ih =>
    rw [chosen]
    cases decide k item with
    | keep => exact (ih (k + 1)).cons item
    | skip => exact (ih (k + 1)).cons item
    | quit => exact List.nil_sublist _
    | redact => exact (ih (k + 1)).cons_cons item

theorem chosen_redact (k : ℕ) (items : List Match) :
    chosen (fun _ _ => .redact) k items = items := by
  induction items generalizing k with
  | nil => rfl
  | cons item items ih => rw [chosen, ih]

section Collected

variable {items : List Match}

theorem Collected.small (h : Collected input items) :
    input.length + growth * items.length ≤ maxOutputBytes := by
  have h1 := h.input_le
  have h2 := h.length_le
  simp only [maxInputBytes, maxMatches, maxOutputBytes, growth] at *
  omega

/-- Redacting what was collected makes all the edits. -/
theorem redactBytes_eq {profile : Option RedactionProfile}
    (h : collectMatches engine input profile = .ok items) :
    redactBytes engine input profile = .ok (replaceAll input (items.map Match.edit)) := by
  have hc := collected h
  obtain ⟨length, hlength⟩ := checkLength_fold hc.fits hc.apart (Nat.le_add_right _ _) hc.small
  obtain ⟨output, p, hemit, hp, heq⟩ := emit_fold [] hc.apart
  have hrest : get input p input.length = some (input.drop p) := by
    rw [get, if_pos ⟨hp, le_rfl⟩, slice, ← List.length_drop, List.take_length]
  rw [replaceAll_eq_splice hc.apart, ← List.nil_append (splice _ _ _), ← heq, redactBytes]
  simp only [h, hlength, hemit, hrest, bind, Except.bind, pure, Except.pure]

/-- Reviewing what was collected makes the edits chosen. -/
theorem reviewBytes_eq (hc : Collected input items) (decide : Option (ℕ → Match → Action)) :
    ∃ result, reviewBytes input items decide = .ok result ∧
      result.output = replaceAll input
        ((chosen (decide.getD fun _ _ => .keep) 0 items).map Match.edit) := by
  have happly : Apart input.length 0
      ((chosen (decide.getD fun _ _ => .keep) 0 items).map Match.edit) :=
    hc.apart.sublist ((chosen_sublist _ 0 items).map Match.edit)
  obtain ⟨acc, hvalid⟩ := validateMatch_fold (k := 0) hc.fits hc.apart (Nat.le_add_right _ _)
    hc.input_le hc.small
  have hvalid' : validateMatches input items = .ok () := by
    rw [validateMatches, Result.bind_eq_ok]
    exact ⟨acc, hvalid, rfl⟩
  rw [replaceAll_eq_splice happly]
  unfold reviewBytes
  rw [if_neg (not_lt.2 hc.input_le), if_neg (not_lt.2 hc.length_le)]
  by_cases hnil : items = []
  · refine ⟨⟨input, false, false, 0, 0, 0⟩, ?_, ?_⟩
    · simp only [hvalid', if_pos hnil, bind, Except.bind, pure, Except.pure]
    · simp [hnil, chosen, splice]
  obtain ⟨s, hloop, heq, hout, hchanged⟩ := reviewLoop_eq
    (decide.getD fun _ _ => .keep) (k := 0) (s := ⟨[], 0, ⟨input, false, false, 0, 0, 0⟩⟩) hc.fits
    hc.apart (by simpa using hc.small)
  change s.output ++ input.drop s.position = splice input 0 _ at heq
  by_cases hchange : s.result.changed = true
  · have hgrow : ∀ e ∈ (chosen (decide.getD fun _ _ => .keep) 0 items).map Match.edit,
        e.text.length ≤ e.stop - e.start + growth := by
      intro e he
      obtain ⟨item, hitem, rfl⟩ := List.mem_map.1 he
      exact (hc.fits item ((chosen_sublist _ 0 items).subset hitem)).replacement_le
    have hlength : (s.output ++ input.drop s.position).length ≤ maxOutputBytes := by
      have hsplice := length_splice_le happly hgrow
      have hfew := (chosen_sublist (decide.getD fun _ _ => .keep) 0 items).length_le
      have hsmall := hc.small
      rw [heq]
      rw [List.length_map] at hsplice
      simp only [growth] at hsplice hsmall
      omega
    refine ⟨{ s.result with output := s.output ++ input.drop s.position }, ?_, heq⟩
    simp only [hvalid', if_neg hnil, hloop, if_pos hchange, if_neg (not_lt.2 hlength), bind,
      Except.bind, pure, Except.pure]
  · have hnone : chosen (decide.getD fun _ _ => .keep) 0 items = [] := by
      by_contra hsome
      exact hchange (hchanged.2 (Or.inr hsome))
    refine ⟨s.result, ?_, ?_⟩
    · simp only [hvalid', if_neg hnil, hloop, if_neg hchange, bind, Except.bind, pure, Except.pure]
    · rw [hout, hnone]
      simp [splice]

end Collected

/-- On collected matches a review never finds a match invalid.  Redacting all of them gives what
`redactBytes` gives, and any decisions give the input with the chosen spans replaced. -/
theorem review_agrees (engine : Engine) (input : Bytes) (profile : Option RedactionProfile)
    {items : List Match} (h : collectMatches engine input profile = .ok items) :
    (∀ decide index, reviewBytes input items decide ≠ .error (.invalidMatch index)) ∧
    (∀ output, redactBytes engine input profile = .ok output ↔
      ∃ result, reviewBytes input items (some fun _ _ => .redact) = .ok result ∧
        result.output = output) ∧
    ∀ decide result, reviewBytes input items decide = .ok result →
      result.output =
        replaceAll input ((chosen (decide.getD fun _ _ => .keep) 0 items).map Match.edit) := by
  have hc := collected h
  refine ⟨fun decide index herror => ?_, fun output => ?_, fun decide result hresult => ?_⟩
  · obtain ⟨result, hok, -⟩ := reviewBytes_eq hc decide
    rw [hok] at herror
    cases herror
  · obtain ⟨result, hok, hout⟩ := reviewBytes_eq hc (some fun _ _ => .redact)
    rw [Option.getD_some, chosen_redact] at hout
    rw [redactBytes_eq h, hok]
    constructor
    · intro heq
      exact ⟨result, rfl, hout.trans (Except.ok.inj heq)⟩
    · rintro ⟨result', hresult', rfl⟩
      rw [← Except.ok.inj hresult', hout]
  · obtain ⟨result', hok, hout⟩ := reviewBytes_eq hc decide
    rw [hok] at hresult
    rw [← Except.ok.inj hresult]
    exact hout

/-- The engine on a text of thirteen octets that holds two addresses of six. -/
def mailEngine : Engine where
  rule kind text :=
    if h : kind = .email ∧ text.length = 13 then
      [⟨0, 6, by decide, h.2 ▸ by decide⟩, ⟨7, 13, by decide, h.2.ge⟩]
    else []
  asciiLiteral _ := some fun _ => []
  textLiteral _ := some fun _ => []
  identifier _ := none

/-- Two addresses. -/
def mailText : Bytes := ascii "a@b.de c@d.de"

/-- The match of the first address. -/
def firstMail : Match := ⟨"Email", 0, 6, ascii "a@b.de", ascii "a@b*.de"⟩

/-- The match of the second address. -/
def secondMail : Match := ⟨"Email", 7, 13, ascii "c@d.de", ascii "c@d*.de"⟩

/-- The decisions that redact the first match and stop at the second. -/
def stopAtSecond : ℕ → Match → Action := fun index _ => if index = 0 then .redact else .quit

theorem review_agrees_twoMails :
    collectMatches mailEngine mailText none = .ok [firstMail, secondMail] ∧
      redactBytes mailEngine mailText none = .ok (ascii "a@b*.de c@d*.de") ∧
      (∀ decide index,
        reviewBytes mailText [firstMail, secondMail] decide ≠ .error (.invalidMatch index)) ∧
      ∀ result, reviewBytes mailText [firstMail, secondMail] (some stopAtSecond) = .ok result →
        result.output = ascii "a@b*.de c@d.de" := by
  have h : collectMatches mailEngine mailText none = .ok [firstMail, secondMail] := by decide
  obtain ⟨hvalid, -, hchosen⟩ := review_agrees mailEngine mailText none h
  refine ⟨h, by decide, hvalid, fun result hresult => ?_⟩
  have hreplaced : replaceAll mailText ((chosen stopAtSecond 0 [firstMail, secondMail]).map
      Match.edit) = ascii "a@b*.de c@d.de" := by decide
  rw [← hreplaced]
  exact hchosen (some stopAtSecond) result hresult

end EraseMe.Redaction
