import EraseMe.Library.Occurrence

/-!
# The matches of a pattern

A pattern is a property of texts.  Its matches in a text are taken from the left, each as long as
it can be, and the search goes on after a match.  There is one list of them (`Matches.unique`), and
what no match starts in can be left out (`Matches.skip`).
-/

namespace Text

variable {α : Type} {P : List α → Prop} {s a b m r : List α} {ms : List (List α)}

/-- No match starts in `a`, when `s` follows. -/
def NoneStart (P : List α → Prop) (a s : List α) : Prop :=
  ∀ v, v <:+ a → v ≠ [] → ∀ m, m <+: v ++ s → ¬ P m

/-- What is found from left to right. -/
inductive Matches (P : List α → Prop) : List α → List (List α) → Prop
  | nil {s : List α} (h : ∀ m, m <:+: s → ¬ P m) : Matches P s []
  | cons {a m r : List α} {ms : List (List α)} (leftmost : NoneStart P a (m ++ r)) (found : P m)
      (longest : ∀ m', m' <+: m ++ r → P m' → m'.length ≤ m.length) (rest : Matches P r ms) :
      Matches P (a ++ (m ++ r)) (m :: ms)

theorem NoneStart.append (ha : NoneStart P a (b ++ s)) (hb : NoneStart P b s) :
    NoneStart P (a ++ b) s := by
  intro v hv hne m hm
  rcases List.suffix_or_suffix_of_suffix hv (List.suffix_append a b) with hinside | ⟨w, rfl⟩
  · exact hb v hinside hne m hm
  · by_cases hnil : w = []
    · subst hnil
      exact hb b List.suffix_rfl hne m hm
    · have hw : w <:+ a := by
        obtain ⟨u, hu⟩ := hv
        rw [← List.append_assoc, List.append_left_inj] at hu
        exact ⟨u, hu⟩
      exact ha w hw hnil m (by rwa [← List.append_assoc])

/-- What starts with a part that does not occur does not occur. -/
theorem noneStart_of_apart {pattern : List α} (hP : ∀ m, P m → pattern <+: m)
    (h : Apart pattern a s) : NoneStart P a s :=
  fun v hv hne m hm hfound => h v hv hne ((hP m hfound).trans hm)

theorem Matches.skip (h : Matches P s ms) (ha : NoneStart P a s) : Matches P (a ++ s) ms := by
  cases h with
  | nil hnone =>
    refine .nil fun m hm hfound => ?_
    obtain ⟨u, t, hut⟩ := hm
    by_cases hlength : a.length ≤ u.length
    · obtain ⟨w, rfl⟩ : a <+: u :=
        List.prefix_of_prefix_length_le (List.prefix_append a s)
          ⟨m ++ t, by rw [← List.append_assoc, hut]⟩ hlength
      rw [List.append_assoc, List.append_assoc, List.append_cancel_left_eq] at hut
      exact hnone m ⟨w, t, by rw [← hut, List.append_assoc]⟩ hfound
    · obtain ⟨v, rfl⟩ : u <+: a :=
        List.prefix_of_prefix_length_le ⟨m ++ t, by rw [← List.append_assoc, hut]⟩
          (List.prefix_append a s) (by omega)
      rw [List.append_assoc, List.append_assoc, List.append_cancel_left_eq] at hut
      refine ha v (List.suffix_append u v) ?_ m ⟨t, hut⟩ hfound
      rintro rfl
      simp at hlength
  | cons leftmost found longest rest =>
    rw [← List.append_assoc]
    exact .cons (ha.append leftmost) found longest rest

/-- Two ways to the first match are one. -/
theorem eq_of_first {a' m' r' : List α} (h : a ++ (m ++ r) = a' ++ (m' ++ r'))
    (ha' : NoneStart P a' (m' ++ r')) (hm : P m) : a'.length ≤ a.length := by
  by_contra hlt
  obtain ⟨v, rfl⟩ : a <+: a' :=
    List.prefix_of_prefix_length_le ⟨m ++ r, h⟩ (List.prefix_append a' _) (by omega)
  rw [List.append_assoc, List.append_cancel_left_eq] at h
  refine ha' v (List.suffix_append a v) ?_ m ⟨r, h⟩ hm
  rintro rfl
  simp at hlt

theorem Matches.unique {ms' : List (List α)} (h : Matches P s ms) (h' : Matches P s ms') :
    ms = ms' := by
  induction h generalizing ms' with
  | nil hnone =>
    cases h' with
    | nil => rfl
    | cons leftmost found longest rest => exact absurd found (hnone _ ⟨_, _, List.append_assoc _ _ _⟩)
  | @cons a m r ms leftmost found longest rest ih =>
    generalize hs : a ++ (m ++ r) = s at h'
    cases h' with
    | nil hnone => exact absurd found (hnone m ⟨a, r, by rw [← hs, List.append_assoc]⟩)
    | @cons a' m' r' ms' leftmost' found' longest' rest' =>
      have hlength := le_antisymm (eq_of_first hs.symm leftmost found')
        (eq_of_first hs leftmost' found)
      obtain ⟨rfl, hmr⟩ := List.append_inj hs hlength
      have hle := longest m' (hmr ▸ List.prefix_append m' r') found'
      have hge := longest' m (hmr ▸ List.prefix_append m r) found
      obtain ⟨rfl, rfl⟩ := List.append_inj hmr (le_antisymm hge hle)
      rw [ih rest']

end Text
