import EraseMe.Email.EncodedWords

/-!
# The parts of a header

A header value falls apart in one way into encoded words with gaps in front of them and a rest,
which starts at the first opening that is not one of a word (`existsUnique`, as part of
`decodeHeader_parts`).  Of these words the decodable ones are replaced; a word behind a broken
opening is part of the rest and stays.
-/

namespace EraseMe.Email

/-- A word with the gap in front of it. -/
structure Part where
  gap : List Char
  word : Word
  deriving DecidableEq, Repr

namespace Part

/-- A part as it is written. -/
def written (part : Part) : List Char := part.gap ++ part.word.written

/-- The word is the first one that is opened. -/
structure Opens (part : Part) : Prop where
  gap : ¬ ['=', '?'] <:+: part.gap
  word : part.word.WellFormed

end Part

/-- A header falls apart into words with their gaps, and a rest that does not begin with one: its
first opening, if there is one, is not that of a word. -/
structure Decomposes (header : List Char) (parts : List Part) (rest : List Char) : Prop where
  header_eq : header = parts.flatMap Part.written ++ rest
  opens : ∀ part ∈ parts, part.Opens
  rest : ∀ part : Part, part.Opens → ¬ part.written <+: rest

/-- The words with their gaps after decoding: a gap without visible characters between two decoded
words is dropped. -/
def shownParts : Bool → List Part → List Char
  | _, [] => []
  | afterDecoded, part :: parts =>
      let dropped := afterDecoded && part.word.content.isSome && !hasNonWhitespace part.gap
      (if dropped then [] else part.gap) ++ part.word.shown ++
        shownParts part.word.content.isSome parts

/-- A word that decodes names a charset that is not converted. -/
def Unhandled (parts : List Part) : Prop :=
  ∃ part ∈ parts, part.word.content.isSome ∧ part.word.Foreign

instance (w : Word) : Decidable w.Foreign :=
  inferInstanceAs (Decidable (∀ charset ∈ ["utf-8", "iso-8859-1", "us-ascii"],
    Text.eqIgnoreAsciiCase w.charset charset.toList = false))

instance (parts : List Part) : Decidable (Unhandled parts) :=
  inferInstanceAs (Decidable (∃ part ∈ parts, part.word.content.isSome ∧ part.word.Foreign))

theorem unhandled_cons {part : Part} {parts : List Part} : Unhandled (part :: parts) ↔
    (part.word.content.isSome ∧ part.word.Foreign) ∨ Unhandled parts := by
  simp [Unhandled]

theorem convertCharset_eq_none_iff {w : Word} {content : List UInt8} :
    convertCharset w.charset content = none ↔ w.Foreign := by
  unfold convertCharset Word.Foreign
  simp only [List.forall_mem_cons, List.not_mem_nil, false_implies, implies_true, and_true]
  cases Text.eqIgnoreAsciiCase w.charset "utf-8".toList <;>
    cases Text.eqIgnoreAsciiCase w.charset "iso-8859-1".toList <;>
    cases Text.eqIgnoreAsciiCase w.charset "us-ascii".toList <;> simp

theorem nextWord_part {header after : List Char} {part : Part} :
    nextWord header =
        some (part.gap, part.word.charset, part.word.encoding, part.word.text, after) ↔
      header = part.written ++ after ∧ part.Opens := by
  rw [nextWord_eq_some_iff, Part.written, List.append_assoc]
  exact and_congr_right fun _ => ⟨fun h => ⟨h.1, h.2⟩, fun h => ⟨h.gap, h.word⟩⟩

theorem exists_part {header : List Char}
    {found : List Char × List Char × Char × List Char × List Char}
    (h : nextWord header = some found) :
    ∃ (part : Part) (after : List Char), header = part.written ++ after ∧ part.Opens := by
  obtain ⟨gap, charset, encoding, text, after⟩ := found
  let part : Part := ⟨gap, ⟨charset, encoding, text⟩⟩
  have hpart : nextWord header =
      some (part.gap, part.word.charset, part.word.encoding, part.word.text, after) := h
  exact ⟨part, after, nextWord_part.1 hpart⟩

theorem nextWord_eq_none_iff {header : List Char} :
    nextWord header = none ↔ ∀ part : Part, part.Opens → ¬ part.written <+: header := by
  constructor
  · rintro h part hopens ⟨after, rfl⟩
    rw [nextWord_part.2 ⟨rfl, hopens⟩] at h
    cases h
  · intro h
    cases hnext : nextWord header with
    | none => rfl
    | some found =>
      obtain ⟨part, after, rfl, hopens⟩ := exists_part hnext
      exact absurd (List.prefix_append _ after) (h part hopens)

theorem Part.written_length_pos (part : Part) : 0 < part.written.length := by
  simp [Part.written, Word.written]

namespace Decomposes

variable {header rest : List Char} {part : Part} {parts : List Part}

theorem nextWord_nil (h : Decomposes header [] rest) : nextWord header = none ∧ header = rest := by
  obtain rfl : header = rest := h.header_eq
  exact ⟨nextWord_eq_none_iff.2 h.rest, rfl⟩

theorem nextWord_cons (h : Decomposes header (part :: parts) rest) :
    ∃ after, header = part.written ++ after ∧ part.Opens ∧ Decomposes after parts rest := by
  refine ⟨parts.flatMap Part.written ++ rest, ?_, h.opens part (List.mem_cons_self ..), rfl,
    fun p hp => h.opens p (List.mem_cons_of_mem _ hp), h.rest⟩
  rw [h.header_eq, List.flatMap_cons, List.append_assoc]

end Decomposes

/-- What the loop makes of a header: nothing if a word is unhandled, and else the decoded parts. -/
theorem decodeWords_parts {parts : List Part} {header rest : List Char}
    (h : Decomposes header parts rest) {fuel : ℕ} (hfuel : header.length ≤ fuel)
    (afterDecoded : Bool) :
    decodeWords fuel afterDecoded header =
      if Unhandled parts then none else some (shownParts afterDecoded parts ++ rest) := by
  induction parts generalizing header fuel afterDecoded with
  | nil =>
    obtain ⟨hnone, rfl⟩ := h.nextWord_nil
    rw [if_neg (by simp [Unhandled])]
    cases fuel with
    | zero => rfl
    | succ fuel =>
      rw [decodeWords, hnone]
      rfl
  | cons part parts ih =>
    obtain ⟨after, rfl, hopens, hafter⟩ := h.nextWord_cons
    have hpos := part.written_length_pos
    rw [List.length_append] at hfuel
    obtain ⟨fuel, rfl⟩ : ∃ f, fuel = f + 1 := ⟨fuel - 1, by omega⟩
    have hrest := ih hafter (show after.length ≤ fuel by omega)
    rw [decodeWords, nextWord_part.2 ⟨rfl, hopens⟩]
    simp only
    cases hcontent : decodeWord part.word.encoding part.word.text with
    | none =>
      have hnone : part.word.content = none := hcontent
      have hshown : part.word.shown = part.word.written := by rw [Word.shown, hnone]
      have hunhandled : Unhandled (part :: parts) ↔ Unhandled parts := by
        simp [unhandled_cons, hnone]
      rw [hrest, List.length_append, Nat.add_sub_cancel, List.take_left]
      by_cases hun : Unhandled parts
      · rw [if_pos hun, if_pos (hunhandled.2 hun)]
        rfl
      · rw [if_neg hun, if_neg (mt hunhandled.1 hun)]
        simp [shownParts, hnone, hshown, Part.written]
    | some content =>
      have hsome : part.word.content = some content := hcontent
      have hunhandled : Unhandled (part :: parts) ↔ part.word.Foreign ∨ Unhandled parts := by
        simp [unhandled_cons, hsome]
      simp only [Option.bind_eq_bind]
      cases hconverted : convertCharset part.word.charset content with
      | none =>
        rw [if_pos (hunhandled.2 (Or.inl (convertCharset_eq_none_iff.1 hconverted)))]
        rfl
      | some converted =>
        have hknown : ¬ part.word.Foreign := fun hforeign => by
          rw [convertCharset_eq_none_iff.2 hforeign] at hconverted
          cases hconverted
        have hshown : part.word.shown = converted := by
          rw [Word.shown, hsome]
          simp [hconverted]
        rw [hrest]
        by_cases hun : Unhandled parts
        · rw [if_pos hun, if_pos (hunhandled.2 (Or.inr hun))]
          rfl
        · have hall : ¬ Unhandled (part :: parts) := by simp [hunhandled, hknown, hun]
          rw [if_neg hun, if_neg hall]
          simp only [Option.bind_some, shownParts, hsome, hshown, Option.isSome_some, Bool.and_true]
          cases afterDecoded <;> cases hvisible : hasNonWhitespace part.gap <;>
            by_cases hgap : part.gap = [] <;> simp [hgap]

/-- Every header falls apart in one way. -/
theorem exists_decomposes (header : List Char) :
    ∃ parts rest, Decomposes header parts rest := by
  induction hn : header.length using Nat.strong_induction_on generalizing header with
  | _ n ih =>
    cases hnext : nextWord header with
    | none =>
      exact ⟨[], header, rfl, by simp, nextWord_eq_none_iff.1 hnext⟩
    | some found =>
      obtain ⟨part, after, rfl, hopens⟩ := exists_part hnext
      have hpos := part.written_length_pos
      rw [List.length_append] at hn
      obtain ⟨parts, rest, h⟩ := ih after.length (by omega) after rfl
      refine ⟨part :: parts, rest, ?_, ?_, h.rest⟩
      · rw [h.header_eq, List.flatMap_cons, List.append_assoc]
      · exact List.forall_mem_cons.2 ⟨hopens, h.opens⟩

theorem Decomposes.unique {header rest rest' : List Char} {parts parts' : List Part}
    (h : Decomposes header parts rest) (h' : Decomposes header parts' rest') :
    parts = parts' ∧ rest = rest' := by
  induction parts generalizing header parts' with
  | nil =>
    obtain ⟨hnone, rfl⟩ := h.nextWord_nil
    cases parts' with
    | nil => exact ⟨rfl, h'.nextWord_nil.2⟩
    | cons part' parts' =>
      obtain ⟨after, heq, hopens, -⟩ := h'.nextWord_cons
      rw [nextWord_part.2 ⟨heq, hopens⟩] at hnone
      cases hnone
  | cons part parts ih =>
    obtain ⟨after, heq, hopens, hafter⟩ := h.nextWord_cons
    have hfirst := nextWord_part.2 ⟨heq, hopens⟩
    cases parts' with
    | nil =>
      rw [h'.nextWord_nil.1] at hfirst
      cases hfirst
    | cons part' parts' =>
      obtain ⟨after', heq', hopens', hafter'⟩ := h'.nextWord_cons
      rw [nextWord_part.2 ⟨heq', hopens'⟩] at hfirst
      simp only [Option.some.injEq, Prod.mk.injEq] at hfirst
      obtain ⟨hgap, hcharset, hencoding, htext, rfl⟩ := hfirst
      obtain ⟨rfl, rfl⟩ := ih hafter hafter'
      refine ⟨?_, rfl⟩
      obtain ⟨gap, charset, encoding, text⟩ := part
      obtain ⟨gap', charset', encoding', text'⟩ := part'
      simp_all

/-- Decoding ends without a panic.  Every header value falls apart in one way into encoded words
with their gaps and a rest that does not begin with one; the value is given up exactly if a word
that decodes names a charset that is not converted, and else every word that decodes is replaced by
its text, the blank gaps between two such words are dropped, and all the rest is kept. -/
theorem decodeHeader_parts (value : List Char) :
    (∃! d : List Part × List Char, Decomposes value d.1 d.2) ∧
      ∀ parts rest, Decomposes value parts rest → decodeHeaderOctets value =
        some (if Unhandled parts then none else some (shownParts false parts ++ rest)) := by
  refine ⟨?_, fun parts rest h => ?_⟩
  · obtain ⟨parts, rest, h⟩ := exists_decomposes value
    refine ⟨(parts, rest), h, fun d hd => ?_⟩
    obtain ⟨hparts, hrest⟩ := hd.unique h
    exact Prod.ext hparts hrest
  · rw [decodeHeaderOctets_eq, decodeHeader_eq, decodeWords_parts h le_rfl]

/-- Two words with a gap that is dropped. -/
theorem decodeHeader_parts_greeting :
    decodeHeaderOctets "=?utf-8?q?Gr=C3=BC?= =?ISO-8859-1?Q?=DFe?=!".toList =
      some (some "Grüße!".toList) := by
  let first : Part := ⟨[], ⟨"utf-8".toList, 'q', "Gr=C3=BC".toList⟩⟩
  let second : Part := ⟨[' '], ⟨"ISO-8859-1".toList, 'Q', "=DFe".toList⟩⟩
  have hopens : ∀ part ∈ [first, second], part.Opens := by
    intro part hpart
    have hall : ∀ part ∈ [first, second], ¬ ['=', '?'] <:+: part.gap ∧ '?' ∉ part.word.charset ∧
        part.word.encoding.toNat < 128 ∧ ¬ ['?', '='] <:+: part.word.text := by decide
    obtain ⟨hgap, hcharset, hencoding, htext⟩ := hall part hpart
    exact ⟨hgap, ⟨hcharset, hencoding, htext⟩⟩
  have hrest : ∀ part : Part, part.Opens → ¬ part.written <+: ['!'] := by
    intro part _ hprefix
    have hlength := hprefix.length_le
    simp only [Part.written, Word.written, List.length_append, List.length_cons] at hlength
    omega
  rw [(decodeHeader_parts _).2 [first, second] ['!'] ⟨by decide, hopens, hrest⟩]
  decide

/-- The opening in front of the word is none of a word. -/
def brokenGap : List Char := "=?x ".toList

/-- A word that stands alone. -/
def lonelyWord : Word := ⟨"utf-8".toList, 'q', ['a']⟩

/-- The only encoded word of the value decodes, and is not replaced. -/
theorem not_decodeHeader_replaces :
    ¬ ∀ (gap : List Char) (w : Word), w.WellFormed → w.content.isSome → ¬ w.Foreign →
      (∀ a (v : Word) b, v.WellFormed → gap ++ w.written = a ++ (v.written ++ b) →
        a = gap ∧ v = w ∧ b = []) →
      decodeHeaderOctets (gap ++ w.written) = some (some (gap ++ w.shown)) := by
  intro h
  have hword : lonelyWord.WellFormed := ⟨by decide, by decide, by decide⟩
  have honly : ∀ a (v : Word) b, v.WellFormed →
      brokenGap ++ lonelyWord.written = a ++ (v.written ++ b) →
        a = brokenGap ∧ v = lonelyWord ∧ b = [] := by
    intro a v b hv heq
    have hdrop : (brokenGap ++ lonelyWord.written).drop a.length = [] ++ (v.written ++ b) := by
      rw [heq, List.drop_left, List.nil_append]
    have hfound := nextWord_eq_some_iff.2 ⟨hdrop, by decide, hv⟩
    have hlt : a.length < 18 := by
      have hlength := congrArg List.length heq
      have hpos : 0 < v.written.length := by simp [Word.written]
      have htotal : (brokenGap ++ lonelyWord.written).length = 17 := by decide
      rw [htotal, List.length_append, List.length_append] at hlength
      omega
    have hall : ∀ k : Fin 18, k ≠ 4 →
        ((nextWord ((brokenGap ++ lonelyWord.written).drop k)).all
          fun found => found.1 ≠ []) = true := by
      decide
    have hfour : a.length = 4 := by
      by_contra hne
      have hk := hall ⟨a.length, hlt⟩ (fun heq => hne (congrArg Fin.val heq))
      rw [hfound] at hk
      simp at hk
    have hlast : nextWord ((brokenGap ++ lonelyWord.written).drop 4) =
        some ([], lonelyWord.charset, lonelyWord.encoding, lonelyWord.text, []) := by decide
    rw [hfour, hlast, Option.some.injEq] at hfound
    simp only [Prod.mk.injEq, true_and] at hfound
    obtain ⟨hcharset, hencoding, htext, rfl⟩ := hfound
    refine ⟨?_, ?_, rfl⟩
    · have hstart : (brokenGap ++ lonelyWord.written).take a.length = brokenGap := by
        rw [hfour]
        decide
      rwa [heq, List.take_left] at hstart
    · obtain ⟨charset, encoding, text⟩ := v
      subst hcharset hencoding htext
      rfl
  have hreplaced := h brokenGap lonelyWord hword (by decide) (by decide) honly
  rw [decodeHeaderOctets_eq] at hreplaced
  revert hreplaced
  decide

end EraseMe.Email
