import Mathlib.Data.List.Basic

/-!
# Keeping the first element of each key

`firstOf key seen l` drops every element of `l` whose key was seen before.
-/

namespace FirstOf

variable {α κ : Type*} [DecidableEq κ] (key : α → κ)

/-- The elements whose key is neither in `seen` nor the key of an element before them. -/
def firstOf : List κ → List α → List α
  | _, [] => []
  | seen, a :: l => if key a ∈ seen then firstOf seen l else a :: firstOf (seen ++ [key a]) l

variable {key}

theorem firstOf_append (seen : List κ) (l l' : List α) :
    firstOf key seen (l ++ l') =
      firstOf key seen l ++ firstOf key (seen ++ (firstOf key seen l).map key) l' := by
  induction l generalizing seen with
  | nil => simp [firstOf]
  | cons a l ih =>
    by_cases h : key a ∈ seen
    · simp [firstOf, h, ih]
    · simp [firstOf, h, ih]

/-- A key that was seen is not kept. -/
theorem key_not_mem_of_mem {seen : List κ} {l : List α} {a : α} (h : a ∈ firstOf key seen l) :
    key a ∉ seen := by
  induction l generalizing seen with
  | nil => cases h
  | cons b l ih =>
    rw [firstOf] at h
    split_ifs at h with hb
    · exact ih h
    · rcases List.mem_cons.1 h with rfl | h
      · exact hb
      · exact fun hseen => ih h (List.mem_append_left _ hseen)

/-- An element is kept once, or its key was seen, or an element before it has its key. -/
theorem count_firstOf [DecidableEq α] (key : α → κ) (seen : List κ) {l : List α} {i : ℕ} {a : α}
    (h : l[i]? = some a) :
    key a ∈ seen ∨ (∃ j < i, ∃ b, l[j]? = some b ∧ key b = key a) ∨
      (firstOf key seen l).count a = 1 := by
  induction l generalizing seen i with
  | nil => simp at h
  | cons b l ih =>
    by_cases hseen : key a ∈ seen
    · exact Or.inl hseen
    refine Or.inr ?_
    cases i with
    | zero =>
      rw [List.getElem?_cons_zero, Option.some.injEq] at h
      subst h
      have hrest : b ∉ firstOf key (seen ++ [key b]) l := fun hmem =>
        key_not_mem_of_mem hmem (by simp)
      simp [firstOf, hseen, List.count_eq_zero_of_not_mem hrest]
    | succ i =>
      rw [List.getElem?_cons_succ] at h
      by_cases hkey : key b = key a
      · exact Or.inl ⟨0, by omega, b, rfl, hkey⟩
      have hne : b ≠ a := fun heq => hkey (heq ▸ rfl)
      by_cases hb : key b ∈ seen
      · rcases ih seen h with hs | ⟨j, hj, c, hc, hk⟩ | hcount
        · exact absurd hs hseen
        · exact Or.inl ⟨j + 1, by omega, c, by simpa using hc, hk⟩
        · exact Or.inr (by simpa [firstOf, hb] using hcount)
      · rcases ih (seen ++ [key b]) h with hs | ⟨j, hj, c, hc, hk⟩ | hcount
        · rcases List.mem_append.1 hs with hs | hs
          · exact absurd hs hseen
          · exact absurd (List.mem_singleton.1 hs).symm hkey
        · exact Or.inl ⟨j + 1, by omega, c, by simpa using hc, hk⟩
        · exact Or.inr (by simpa [firstOf, hb, hne] using hcount)

end FirstOf
