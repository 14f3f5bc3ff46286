import EraseMe.Email.Service
import EraseMe.Library.Lowercase

/-!
# Reply prefixes of a subject

`normalize_subject` finds a prefix in the lower-cased subject and cuts as many octets off the
subject itself.  The cut is always at the end of a character, and the loop ends
(`normalizeLoop_eq`); reply prefixes in front of a subject make no difference
(`replies_invariant`).
-/

namespace EraseMe.Email

/-! ### The loop of the source, in octets -/

/-- `&s[n..]`: nothing if `n` is inside a character or after the end. -/
def sliceFrom : ℕ → List Char → Option (List Char)
  | 0, s => some s
  | _ + 1, [] => none
  | n + 1, c :: s => if c.utf8Size ≤ n + 1 then sliceFrom (n + 1 - c.utf8Size) s else none

/-- How many octets a text is. -/
def size (s : List Char) : ℕ := (s.map Char.utf8Size).sum

/-- How the loop may end badly. -/
inductive Stop
  | offBoundary
  | diverged
  deriving DecidableEq

/-- What a prefix looks like. -/
def needle (p : String) : List Char := p.toList ++ [':']

/-- The prefix the subject starts with. -/
def replyPrefix (toLowercase : List Char → List Char) (cleaned : List Char) : Option String :=
  replyPrefixes.find? fun p => (needle p).isPrefixOf (toLowercase cleaned)

/-- The loop with a number of rounds. -/
def normalizeLoop (toLowercase : List Char → List Char) : ℕ → List Char → Except Stop (List Char)
  | 0, _ => .error .diverged
  | fuel + 1, cleaned =>
      match replyPrefix toLowercase cleaned with
      | some p =>
          match sliceFrom (size (needle p)) cleaned with
          | some rest => normalizeLoop toLowercase fuel (Text.trim rest)
          | none => .error .offBoundary
      | none => .ok cleaned

theorem sliceFrom_append (q r : List Char) : sliceFrom (size q) (q ++ r) = some r := by
  induction q with
  | nil => cases r <;> rfl
  | cons c q ih =>
    have hpos := c.utf8Size_pos
    obtain ⟨n, hn⟩ : ∃ n, size (c :: q) = n + 1 := ⟨size (c :: q) - 1, by simp [size]; omega⟩
    have hrest : n + 1 - c.utf8Size = size q := by
      rw [← hn]
      simp [size]
    have hle : c.utf8Size ≤ n + 1 := by
      rw [← hn]
      simp [size]
    rw [hn, List.cons_append, sliceFrom, if_pos hle, hrest, ih]

/-! ### Prefixes -/

theorem isStable_of_mem_needle {p : String} (hp : p ∈ replyPrefixes) :
    ∀ d ∈ needle p, Lowercase.IsStable d := by
  have hletters : ∀ p ∈ replyPrefixes, ∀ d ∈ needle p, d ∈ "refwdantosvgé:".toList := by
    decide
  exact fun d hd => Lowercase.isStable_of_mem (hletters p hp d hd)

theorem letter_of_mem_known {p : String} (hp : p ∈ replyPrefixes) :
    ∀ d ∈ p.toList, Lowercase.IsStable d ∧ Lowercase.charLower (Lowercase.capital d) = [d] ∧
      (Lowercase.capital d).toNat ≠ 0x3A3 := by
  have hcapital : ∀ p ∈ replyPrefixes, ∀ d ∈ p.toList,
      Lowercase.charLower (Lowercase.capital d) = [d] ∧
        (Lowercase.capital d).toNat ≠ 0x3A3 := by decide
  exact fun d hd => ⟨isStable_of_mem_needle hp d (List.mem_append_left _ hd), hcapital p hp d hd⟩

/-- No prefix with its colon starts another one. -/
theorem eq_of_needle_le {p p' : String} (hp : p ∈ replyPrefixes) (hp' : p' ∈ replyPrefixes)
    (h : needle p <+: needle p') : p = p' := by
  have hall : ∀ p ∈ replyPrefixes, ∀ p' ∈ replyPrefixes,
      (needle p).isPrefixOf (needle p') = true → p = p' := by decide
  exact hall p hp p' hp' (List.isPrefixOf_iff_prefix.2 h)

section Strip

variable {final : List Char → List Char → Bool} {p : String} {cleaned : List Char}

/-- A prefix that is found is there in some case: as many characters, and as many octets. -/
theorem exists_of_replyPrefix (h : replyPrefix (Lowercase.toLowercase final) cleaned = some p) :
    ∃ q r, cleaned = q ++ r ∧ q.length = p.length + 1 ∧ size q = size (needle p) := by
  unfold replyPrefix at h
  have hp := List.mem_of_find?_eq_some h
  have hfound := List.find?_some h
  have hprefix := List.isPrefixOf_iff_prefix.1 hfound
  have hstable := isStable_of_mem_needle hp
  obtain ⟨q, r, hsplit, hcase⟩ := Lowercase.exists_anyCase hstable hprefix
  refine ⟨q, r, hsplit, ?_, Lowercase.size_anyCase hstable hcase⟩
  rw [← hcase.length_eq, needle, List.length_append, String.length_toList]
  rfl

theorem stripPrefixes_some (h : replyPrefix (Lowercase.toLowercase final) cleaned = some p)
    (fuel : ℕ) : stripPrefixes (Lowercase.toLowercase final) (fuel + 1) cleaned =
      stripPrefixes (Lowercase.toLowercase final) fuel
        (Text.trim (cleaned.drop (p.length + 1))) := by
  unfold replyPrefix needle at h
  rw [stripPrefixes, h]

theorem stripPrefixes_none (h : replyPrefix (Lowercase.toLowercase final) cleaned = none)
    (fuel : ℕ) : stripPrefixes (Lowercase.toLowercase final) fuel cleaned = cleaned := by
  cases fuel with
  | zero => rfl
  | succ fuel =>
    unfold replyPrefix needle at h
    rw [stripPrefixes, h]

/-- Every round leaves less. -/
theorem length_strip_lt (h : replyPrefix (Lowercase.toLowercase final) cleaned = some p) :
    (Text.trim (cleaned.drop (p.length + 1))).length < cleaned.length := by
  obtain ⟨q, r, rfl, hlength, -⟩ := exists_of_replyPrefix h
  refine (Text.trim_length_le _).trans_lt ?_
  rw [List.length_drop, List.length_append]
  omega

/-- As many rounds as there are characters are enough. -/
theorem stripPrefixes_fuel {fuel fuel' : ℕ} (h : cleaned.length ≤ fuel)
    (h' : cleaned.length ≤ fuel') :
    stripPrefixes (Lowercase.toLowercase final) fuel cleaned =
      stripPrefixes (Lowercase.toLowercase final) fuel' cleaned := by
  induction fuel generalizing fuel' cleaned with
  | zero =>
    have hnil : cleaned = [] := List.length_eq_zero_iff.1 (by omega)
    subst hnil
    cases hprefix : replyPrefix (Lowercase.toLowercase final) [] with
    | none => rw [stripPrefixes_none hprefix, stripPrefixes_none hprefix]
    | some p =>
      have hlt := length_strip_lt hprefix
      simp at hlt
  | succ fuel ih =>
    cases hprefix : replyPrefix (Lowercase.toLowercase final) cleaned with
    | none => rw [stripPrefixes_none hprefix, stripPrefixes_none hprefix]
    | some p =>
      have hlt := length_strip_lt hprefix
      obtain ⟨fuel'', rfl⟩ : ∃ n, fuel' = n + 1 := ⟨fuel' - 1, by omega⟩
      rw [stripPrefixes_some hprefix, stripPrefixes_some hprefix]
      exact ih (by omega) (by omega)

/-- The loop of the source cuts at the end of a character, and ends. -/
theorem normalizeLoop_eq {fuel : ℕ} (h : cleaned.length < fuel) :
    normalizeLoop (Lowercase.toLowercase final) fuel cleaned =
      .ok (stripPrefixes (Lowercase.toLowercase final) cleaned.length cleaned) := by
  induction fuel generalizing cleaned with
  | zero => omega
  | succ fuel ih =>
    rw [normalizeLoop]
    cases hprefix : replyPrefix (Lowercase.toLowercase final) cleaned with
    | none => rw [stripPrefixes_none hprefix]
    | some p =>
      have hlt := length_strip_lt hprefix
      obtain ⟨q, r, hsplit, hlength, hsize⟩ := exists_of_replyPrefix hprefix
      -- the prefix in the original has the octets of the one that was found in lower case
      have hslice : sliceFrom (size (needle p)) cleaned = some (cleaned.drop (p.length + 1)) := by
        rw [hsplit, ← hsize, sliceFrom_append, ← hlength, List.drop_left]
      obtain ⟨n, hn⟩ : ∃ n, cleaned.length = n + 1 := ⟨cleaned.length - 1, by omega⟩
      simp only [hslice]
      rw [ih (by omega), hn, stripPrefixes_some hprefix]
      exact congrArg _ (stripPrefixes_fuel le_rfl (by omega))

end Strip

/-! ### Prefixes in front of a subject -/

/-- A known prefix in any case, its colon and white space. -/
structure Reply where
  word : List Char
  blank : List Char
  isKnown : ∃ p ∈ replyPrefixes, Lowercase.AnyCase p.toList word
  isBlank : ∀ c ∈ blank, Text.isWhitespace c = true

/-- The prefix of a reply as text. -/
def Reply.text (r : Reply) : List Char := r.word ++ ':' :: r.blank

section Replies

variable {final : List Char → List Char → Bool}

/-- Known prefixes start with letters. -/
theorem Reply.exists_word (r : Reply) :
    ∃ c w, r.word = c :: w ∧ Text.isWhitespace c = false := by
  obtain ⟨word, blank, ⟨p, hp, hcase⟩, hblank⟩ := r
  have hhead : ∀ p ∈ replyPrefixes, p.toList ≠ [] ∧ ∀ d ∈ p.toList,
      Text.isWhitespace d = false ∧ Text.isWhitespace (Lowercase.capital d) = false := by
    decide
  obtain ⟨hne, hletters⟩ := hhead p hp
  obtain ⟨d, t, ht⟩ := List.exists_cons_of_ne_nil hne
  rw [ht] at hcase hletters
  cases hcase with
  | @cons _ c _ w hc _ =>
    have hd := hletters d List.mem_cons_self
    refine ⟨c, w, rfl, ?_⟩
    rcases hc with rfl | rfl
    · exact hd.1
    · exact hd.2

/-- The prefix in front is the one that is found. -/
theorem replyPrefix_reply (final : List Char → List Char → Bool) (r : Reply) (s : List Char) :
    ∃ p, replyPrefix (Lowercase.toLowercase final) (r.word ++ ':' :: s) = some p ∧
      r.word.length = p.length := by
  obtain ⟨p, hp, hcase⟩ := r.isKnown
  have hcolon : Lowercase.charLower ':' = [':'] := by decide
  have hlower : Lowercase.toLowercase final (r.word ++ ':' :: s) =
      needle p ++ Lowercase.lowerFrom final (r.word ++ [':']) s := by
    rw [Lowercase.toLowercase, Lowercase.lowerFrom_anyCase (letter_of_mem_known hp) hcase,
      Lowercase.lowerFrom, if_neg (by decide), hcolon, needle]
    simp
  obtain ⟨p', hp'⟩ : ∃ p', replyPrefix (Lowercase.toLowercase final) (r.word ++ ':' :: s) =
      some p' := by
    rw [← Option.isSome_iff_exists, replyPrefix, List.find?_isSome]
    refine ⟨p, hp, List.isPrefixOf_iff_prefix.2 ?_⟩
    rw [hlower]
    exact List.prefix_append _ _
  refine ⟨p', hp', ?_⟩
  unfold replyPrefix at hp'
  have hmem := List.mem_of_find?_eq_some hp'
  have hfound := List.find?_some hp'
  have hprefix := List.isPrefixOf_iff_prefix.1 hfound
  rw [hlower] at hprefix
  -- the list is searched in order, but no other prefix with its colon fits
  have hsame : p' = p := by
    rcases List.prefix_or_prefix_of_prefix hprefix (List.prefix_append (needle p) _) with h | h
    · exact eq_of_needle_le hmem hp h
    · exact (eq_of_needle_le hp hmem h).symm
  rw [hsame, ← hcase.length_eq, String.length_toList]

/-- One prefix in front makes no difference. -/
theorem normalizeSubject_reply (r : Reply) (s : List Char) :
    normalizeSubject (Lowercase.toLowercase final) (r.text ++ s) =
      normalizeSubject (Lowercase.toLowercase final) s := by
  obtain ⟨c, w, hword, hc⟩ := r.exists_word
  have htrim : Text.trim (r.text ++ s) = r.word ++ ':' :: Text.trimEnd (r.blank ++ s) := by
    have hstart : Text.trimStart (r.text ++ s) = r.word ++ ':' :: (r.blank ++ s) := by
      rw [Reply.text, hword]
      simpa using Text.trimStart_cons hc
    rw [Text.trim_eq, hstart, Text.trimEnd_append_cons rfl]
  -- one round takes the prefix; what is left is trimmed as the subject itself would be
  obtain ⟨p, hp, hlength⟩ := replyPrefix_reply final r (Text.trimEnd (r.blank ++ s))
  have hdrop : (r.word ++ ':' :: Text.trimEnd (r.blank ++ s)).drop (p.length + 1) =
      Text.trimEnd (r.blank ++ s) := by
    rw [← hlength]
    simp
  obtain ⟨n, hn⟩ : ∃ n, (r.text ++ s).length = n + 1 :=
    ⟨r.word.length + r.blank.length + s.length, by simp [Reply.text]; omega⟩
  have hle : s.length ≤ n := by
    simp only [Reply.text, List.length_append, List.length_cons] at hn
    omega
  have hshort := Text.trim_length_le s
  rw [normalizeSubject, normalizeSubject, hn, htrim, stripPrefixes_some hp, hdrop,
    Text.trim_trimEnd, Text.trim_append_of_blank r.isBlank]
  exact stripPrefixes_fuel (by omega) hshort

/-- Any prefixes in front make no difference. -/
theorem normalizeSubject_replies (replies : List Reply) (s : List Char) :
    normalizeSubject (Lowercase.toLowercase final) (replies.flatMap Reply.text ++ s) =
      normalizeSubject (Lowercase.toLowercase final) s := by
  induction replies with
  | nil => rfl
  | cons r replies ih => rw [List.flatMap_cons, List.append_assoc, normalizeSubject_reply, ih]

/-- What is left has no white space around it and no prefix in front. -/
theorem stripPrefixes_spec (final : List Char → List Char → Bool) {fuel : ℕ}
    {cleaned : List Char} (hfuel : cleaned.length ≤ fuel)
    (htrim : Text.trim cleaned = cleaned) :
    let r := stripPrefixes (Lowercase.toLowercase final) fuel cleaned
    Text.trim r = r ∧ replyPrefix (Lowercase.toLowercase final) r = none := by
  induction fuel generalizing cleaned with
  | zero =>
    have hnil : cleaned = [] := List.length_eq_zero_iff.1 (by omega)
    subst hnil
    refine ⟨htrim, ?_⟩
    cases hprefix : replyPrefix (Lowercase.toLowercase final) [] with
    | none => exact hprefix
    | some p =>
      have hlt := length_strip_lt hprefix
      simp at hlt
  | succ fuel ih =>
    cases hprefix : replyPrefix (Lowercase.toLowercase final) cleaned with
    | none =>
      rw [stripPrefixes_none hprefix]
      exact ⟨htrim, hprefix⟩
    | some p =>
      have hlt := length_strip_lt hprefix
      rw [stripPrefixes_some hprefix]
      exact ih (by omega) (Text.trim_trim _)

theorem normalizeSubject_idem (s : List Char) :
    normalizeSubject (Lowercase.toLowercase final)
        (normalizeSubject (Lowercase.toLowercase final) s) =
      normalizeSubject (Lowercase.toLowercase final) s := by
  have hle := Text.trim_length_le s
  obtain ⟨htrim, hprefix⟩ := stripPrefixes_spec final hle (Text.trim_trim s)
  rw [← normalizeSubject] at htrim hprefix
  generalize normalizeSubject (Lowercase.toLowercase final) s = r at htrim hprefix
  rw [normalizeSubject, htrim, stripPrefixes_none hprefix]

end Replies

/-- Reply prefixes in front of a subject change neither what it is normalized to nor the decision on
the message; normalizing twice is normalizing once; and the loop of the source ends and never cuts
inside a character.  `final` tells where a capital sigma ends a word. -/
theorem replies_invariant (final : List Char → List Char → Bool) (replies : List Reply)
    (subject : List Char) (requests : List RemovalRequest) (threadMap : String → Option ℤ)
    (message : Message) :
    let lower := Lowercase.toLowercase final
    let reply : Message :=
      { message with
        subject := String.ofList (replies.flatMap Reply.text ++ message.subject.toList) }
    normalizeSubject lower (replies.flatMap Reply.text ++ subject) =
        normalizeSubject lower subject ∧
      normalizeSubject lower (normalizeSubject lower subject) = normalizeSubject lower subject ∧
      (∀ more, normalizeLoop lower (subject.length + 1 + more) (Text.trim subject) =
        .ok (normalizeSubject lower subject)) ∧
      (matchMessage lower requests threadMap reply).requestId =
        (matchMessage lower requests threadMap message).requestId ∧
      (matchMessage lower requests threadMap reply).matchMethod =
        (matchMessage lower requests threadMap message).matchMethod := by
  intro lower reply
  have hsubject : normalizeSubject lower reply.subject.toList =
      normalizeSubject lower message.subject.toList := by
    show normalizeSubject lower (String.ofList _).toList = _
    rw [String.toList_ofList]
    exact normalizeSubject_replies replies _
  have hdecision : (matchMessage lower requests threadMap reply).requestId =
        (matchMessage lower requests threadMap message).requestId ∧
      (matchMessage lower requests threadMap reply).matchMethod =
        (matchMessage lower requests threadMap message).matchMethod := by
    have hthread : reply.threadId = message.threadId := rfl
    simp only [matchMessage, hsubject, hthread]
    cases if message.threadId = "" then none else threadMap message.threadId with
    | some requestId => exact ⟨rfl, rfl⟩
    | none =>
      cases requests.reverse.find? fun request =>
          lower (normalizeSubject lower (subjectOf request)) =
            lower (normalizeSubject lower message.subject.toList) with
      | some request => exact ⟨rfl, rfl⟩
      | none => exact ⟨rfl, rfl⟩
  refine ⟨normalizeSubject_replies replies subject, normalizeSubject_idem subject,
    fun more => ?_, hdecision⟩
  have hle := Text.trim_length_le subject
  rw [normalizeLoop_eq (by omega)]
  exact congrArg _ (stripPrefixes_fuel le_rfl hle)

end EraseMe.Email
