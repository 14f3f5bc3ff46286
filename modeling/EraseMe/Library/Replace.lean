import EraseMe.Library.Occurrence

/-!
# Replacing a token in a text

`replaceAll` puts a text in place of every occurrence of a token.  What does not contain the first
character of the token, or the token itself, is left as it is.

A marker may hold a character at either end that a token does not have.  Then the token is gone once
it has been replaced by the marker, and no later replacement brings it back (`Sealed`).
-/

namespace Text

variable {token marker s t : List Char}

/-- `str::replace` on lists of characters. -/
def replaceAll (s token marker : List Char) : List Char :=
  replaceAux token marker s.length s

/-- More fuel than characters changes nothing. -/
theorem replaceAux_of_length_le {n m : ℕ} (hn : s.length ≤ n) (hm : s.length ≤ m)
    (htoken : token ≠ []) : replaceAux token marker n s = replaceAux token marker m s := by
  induction n generalizing m s with
  | zero =>
    rw [Nat.le_zero, List.length_eq_zero_iff] at hn
    subst hn
    cases m <;> rfl
  | succ n ih =>
    cases s with
    | nil => cases m <;> rfl
    | cons c s =>
      obtain ⟨m, rfl⟩ : ∃ k, m = k + 1 := ⟨m - 1, by simp only [List.length_cons] at hm; omega⟩
      simp only [List.length_cons, Nat.add_le_add_iff_right] at hn hm
      have hpos : 0 < token.length := List.length_pos_iff.2 htoken
      have hdrop : ((c :: s).drop token.length).length ≤ s.length := by
        rw [List.length_drop, List.length_cons]
        omega
      simp only [replaceAux]
      rw [ih (hdrop.trans hn) (hdrop.trans hm), ih hn hm]

theorem replaceAll_cons {c : Char} (h : ¬ token <+: c :: s) :
    replaceAll (c :: s) token marker = c :: replaceAll s token marker := by
  rw [replaceAll, List.length_cons, replaceAux, if_neg (by simpa using h), replaceAll]

section

variable (htoken : token ≠ [])

include htoken

/-- Text without the first character of the token is left as it is. -/
theorem replaceAll_append (h : ∀ c ∈ token.head?, c ∉ s) :
    replaceAll (s ++ t) token marker = s ++ replaceAll t token marker := by
  induction s with
  | nil => rfl
  | cons c s ih =>
    cases token with
    | nil => exact absurd rfl htoken
    | cons d token =>
      have hne : d ∉ c :: s := h d rfl
      rw [List.mem_cons, not_or] at hne
      have hprefix : ¬ d :: token <+: c :: (s ++ t) := by
        rw [List.cons_prefix_cons]
        exact fun hp => hne.1 hp.1
      rw [List.cons_append, replaceAll_cons hprefix,
        ih fun e he hmem => h e he (List.mem_cons_of_mem _ hmem), List.cons_append]

/-- The token itself is replaced. -/
theorem replaceAll_token : replaceAll (token ++ t) token marker =
    marker ++ replaceAll t token marker := by
  cases token with
  | nil => exact absurd rfl htoken
  | cons d token =>
    rw [replaceAll, List.cons_append, List.length_cons, replaceAux,
      if_pos (by simp [List.prefix_append]), ← List.cons_append, List.drop_left]
    rw [replaceAux_of_length_le (by simp) le_rfl htoken, replaceAll]

end

/-- Text without the token is left as it is. -/
theorem replaceAll_eq_self (h : s.tails.all (fun r => ¬ token.isPrefixOf r)) :
    replaceAll s token marker = s := by
  induction s with
  | nil => rfl
  | cons c s ih =>
    simp only [List.tails, List.all_cons, Bool.and_eq_true] at h
    rw [replaceAll_cons (by simpa using h.1), ih h.2]

/-- A character that is not in the token splits the text. -/
theorem replaceAll_sep (htoken : token ≠ []) {c : Char} (hc : c ∉ token) :
    replaceAll (s ++ c :: t) token marker =
      replaceAll s token marker ++ c :: replaceAll t token marker := by
  induction hn : s.length using Nat.strong_induction_on generalizing s with
  | _ n ih =>
    cases s with
    | nil =>
      have hprefix : ¬ token <+: c :: t := by
        cases token with
        | nil => exact absurd rfl htoken
        | cons d token =>
          rw [List.cons_prefix_cons]
          rintro ⟨rfl, -⟩
          simp at hc
      rw [List.nil_append, replaceAll_cons hprefix]
      rfl
    | cons d s =>
      by_cases hprefix : token <+: d :: s
      · obtain ⟨r, hr⟩ := hprefix
        have hlen : r.length < n := by
          have := congrArg List.length hr
          have hpos := List.length_pos_iff.2 htoken
          rw [List.length_append] at this
          omega
        rw [← hr, List.append_assoc, replaceAll_token htoken, replaceAll_token htoken,
          ih r.length hlen rfl, List.append_assoc]
      · have hlong : ¬ token <+: d :: (s ++ c :: t) := by
          intro hp
          rw [← List.cons_append] at hp
          rcases List.prefix_or_prefix_of_prefix hp (List.prefix_append (d :: s) (c :: t)) with
            h | ⟨r, hr⟩
          · exact hprefix h
          · rw [← hr, List.prefix_append_right_inj] at hp
            cases r with
            | nil => exact hprefix ⟨[], by simpa using hr.symm⟩
            | cons e r =>
              rw [List.cons_prefix_cons] at hp
              exact hc (by rw [← hr, hp.1]; simp)
        rw [List.cons_append, replaceAll_cons hlong, replaceAll_cons hprefix,
          ih s.length (by rw [← hn, List.length_cons]; omega) rfl, List.cons_append]

/-! ### What is replaced is gone -/

/-- Text in which the token does not start is left as it is. -/
theorem replaceAll_apart (h : Apart token s t) :
    replaceAll (s ++ t) token marker = s ++ replaceAll t token marker := by
  induction s with
  | nil => rfl
  | cons c s ih =>
    have hhead : ¬ token <+: c :: (s ++ t) := h (c :: s) List.suffix_rfl (by simp)
    rw [List.cons_append, replaceAll_cons hhead, ih h.tail, List.cons_append]

theorem not_infix_of_apart (htoken : token ≠ []) (h : Apart token s t) : ¬ token <:+: s := by
  rintro ⟨u, w, rfl⟩
  have hsuffix : token ++ w <:+ u ++ token ++ w := by
    rw [List.append_assoc]
    exact List.suffix_append u (token ++ w)
  refine h (token ++ w) hsuffix (by simp [htoken]) ?_
  rw [List.append_assoc]
  exact List.prefix_append token (w ++ t)

theorem eq_nil_of_prefix_cons {v : List Char} {c : Char} (hc : c ∉ v) (h : v <+: c :: t) :
    v = [] := by
  cases v with
  | nil => rfl
  | cons d v =>
    rw [List.cons_prefix_cons] at h
    exact absurd (by simp [h.1]) hc

/-- A text without a character lies on one side of it. -/
theorem infix_append_cons {v : List Char} {c : Char} (hc : c ∉ v) :
    v <:+: s ++ c :: t ↔ v <:+: s ∨ v <:+: t := by
  rw [List.infix_append_iff, List.infix_cons_iff]
  constructor
  · rintro (h | (h | h) | ⟨a, b, rfl, ha, hb⟩)
    · exact Or.inl h
    · exact Or.inl (eq_nil_of_prefix_cons hc h ▸ List.nil_infix)
    · exact Or.inr h
    · -- what reaches over the character would hold it
      rw [List.mem_append, not_or] at hc
      rw [eq_nil_of_prefix_cons hc.2 hb, List.append_nil]
      exact Or.inl ha.isInfix
  · rintro (h | h)
    · exact Or.inl h
    · exact Or.inr (Or.inl (Or.inr h))

/-- The marker starts and ends with characters that are not in the text, and does not hold it. -/
structure Sealed (v marker : List Char) : Prop where
  ends : ∃ first inner last, marker = first :: (inner ++ [last]) ∧ first ∉ v ∧ last ∉ v
  not_infix : ¬ v <:+: marker

/-- A text does not come up where a marker is put in. -/
theorem Sealed.infix_iff {v : List Char} (h : Sealed v marker) :
    v <:+: s ++ (marker ++ t) ↔ v <:+: s ∨ v <:+: t := by
  obtain ⟨first, inner, last, rfl, hfirst, hlast⟩ := h.ends
  have hinner : ¬ v <:+: inner := fun hv =>
    h.not_infix (hv.trans ⟨[first], [last], by simp⟩)
  have happend : s ++ (first :: (inner ++ [last]) ++ t) = s ++ first :: (inner ++ last :: t) := by
    simp
  rw [happend, infix_append_cons hfirst, infix_append_cons hlast]
  simp [hinner]

/-- After a replacement a text is gone if it was the token, and does not come up if it was not
there. -/
theorem Sealed.not_infix_replaceAll {v : List Char} (hv : Sealed v marker) (htoken : token ≠ [])
    (h : token = v ∨ ¬ v <:+: s) : ¬ v <:+: replaceAll s token marker := by
  induction hn : s.length using Nat.strong_induction_on generalizing s with
  | _ n ih =>
    cases hafter : after token s with
    -- no token is left: the text stays as it is
    | none =>
      rw [after_eq_none] at hafter
      have hself : replaceAll s token marker = s := by
        have happart : Apart token s [] := by
          rintro u hu hne hstarts
          rw [List.append_nil] at hstarts
          exact hafter (hstarts.isInfix.trans hu.isInfix)
        have happend : replaceAll (s ++ []) token marker = s ++ replaceAll [] token marker :=
          replaceAll_apart happart
        rwa [List.append_nil, show replaceAll [] token marker = [] from rfl,
          List.append_nil] at happend
      rw [hself]
      rcases h with rfl | h
      · exact hafter
      · exact h
    | some r =>
      obtain ⟨a, rfl, hapart⟩ := after_eq_some hafter
      rw [replaceAll_apart hapart, replaceAll_token htoken, hv.infix_iff, not_or]
      have hlength : r.length < n := by
        have hpos := List.length_pos_iff.2 htoken
        rw [← hn, List.length_append, List.length_append]
        omega
      -- the marker separates what comes before the token from what comes after it
      constructor
      · rcases h with rfl | h
        · exact not_infix_of_apart htoken hapart
        · exact fun ha => h (ha.trans (List.prefix_append a (token ++ r)).isInfix)
      · refine ih r.length hlength (h.imp_right fun h hr => h ?_) rfl
        have hsuffix : r <:+ a ++ (token ++ r) :=
          (List.suffix_append token r).trans (List.suffix_append a (token ++ r))
        exact hr.trans hsuffix.isInfix

end Text
