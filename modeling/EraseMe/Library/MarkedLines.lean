import EraseMe.Library.Paths

/-!
# Lines of a text, and marked blocks of lines

`Text.lineList` has the lines of a text, of which only the last may be without a line break.

A block of lines is marked by a line before it and a line after it.  `Blocks.outside` has what is in
no complete block: the lines from a start mark that no end mark follows are in none, and an end mark
that closes nothing is in none either.  `Blocks.strip` is the filter that goes through the lines
once and skips from a start mark to the next end mark; what it keeps are the lines outside, less
the end marks and less what follows an unclosed start mark (`outside_eq`, `strip_eq`).
-/

namespace Text

/-- Without an empty line at the end. -/
def dropBlank (ls : List (List Char)) : List (List Char) :=
  if ls.getLast? = some [] then ls.dropLast else ls

/-- The lines of a text.  A line break ends a line, and the last line may be without it. -/
def lineList (s : List Char) : List (List Char) := dropBlank (splitOn '\n' s)

/-- Every line with its line break. -/
def endLines (ls : List (List Char)) : List Char := ls.flatMap (· ++ ['\n'])

@[simp] theorem endLines_nil : endLines [] = [] := rfl

theorem endLines_cons (l : List Char) (ls : List (List Char)) :
    endLines (l :: ls) = l ++ '\n' :: endLines ls := by
  simp [endLines]

theorem endLines_append (a b : List (List Char)) :
    endLines (a ++ b) = endLines a ++ endLines b := by
  simp [endLines]

theorem endLines_eq_nil {ls : List (List Char)} : endLines ls = [] ↔ ls = [] := by
  cases ls with
  | nil => simp
  | cons l ls => simp [endLines_cons]

/-- A text that ends in a line break. -/
theorem getLast?_endLines {ls : List (List Char)} (h : ls ≠ []) :
    (endLines ls).getLast? = some '\n' := by
  obtain ⟨a, l, rfl⟩ := List.eq_nil_or_concat ls |>.resolve_left h
  rw [List.concat_eq_append, endLines_append, endLines_cons, endLines_nil,
    List.getLast?_append_of_ne_nil _ (by simp), List.getLast?_append_of_ne_nil _ (by simp)]
  rfl

theorem splitOn_endLines {ls : List (List Char)} (h : ∀ l ∈ ls, '\n' ∉ l) (t : List Char) :
    splitOn '\n' (endLines ls ++ t) = ls ++ splitOn '\n' t := by
  induction ls with
  | nil => rfl
  | cons l ls ih =>
    rw [endLines_cons, List.append_assoc, List.cons_append, Paths.splitOn_append_sep,
      Paths.splitOn_of_not_mem (h l List.mem_cons_self),
      ih fun x hx => h x (List.mem_cons_of_mem _ hx)]
    rfl

theorem intercalate_concat (ls : List (List Char)) (r : List Char) :
    ['\n'].intercalate (ls ++ [r]) = endLines ls ++ r := by
  induction ls with
  | nil => simp [List.intercalate]
  | cons l ls ih =>
    have hcons : ['\n'].intercalate (l :: (ls ++ [r])) = l ++ '\n' :: ['\n'].intercalate (ls ++ [r]) := by
      cases ls <;> simp [List.intercalate]
    rw [List.cons_append, hcons, ih, endLines_cons, List.append_assoc, List.cons_append]

/-- A text as its ended lines and the rest. -/
theorem eq_endLines_append (s : List Char) : ∃ ls r, (∀ l ∈ ls, '\n' ∉ l) ∧ '\n' ∉ r ∧
    s = endLines ls ++ r := by
  induction s with
  | nil => exact ⟨[], [], by simp, by simp, rfl⟩
  | cons c s ih =>
    obtain ⟨ls, r, hls, hr, rfl⟩ := ih
    by_cases hc : c = '\n'
    · subst hc
      exact ⟨[] :: ls, r, by simpa using hls, hr, rfl⟩
    · cases ls with
      | nil => exact ⟨[], c :: r, by simp, by simp [hr, Ne.symm hc], rfl⟩
      | cons l ls =>
        rw [List.forall_mem_cons] at hls
        refine ⟨(c :: l) :: ls, r, ?_, hr, by simp [endLines_cons]⟩
        rw [List.forall_mem_cons]
        exact ⟨by simp [hls.1, Ne.symm hc], hls.2⟩

section

variable {ls : List (List Char)} (hls : ∀ l ∈ ls, '\n' ∉ l)

include hls

theorem splitOn_intercalate (hne : ls ≠ []) : splitOn '\n' (['\n'].intercalate ls) = ls := by
  obtain ⟨a, r, rfl⟩ := List.eq_nil_or_concat ls |>.resolve_left hne
  rw [List.concat_eq_append] at hls ⊢
  rw [intercalate_concat, splitOn_endLines fun l hl => hls l (List.mem_append_left _ hl),
    Paths.splitOn_of_not_mem (hls r (by simp))]

/-- Joined lines, of which an empty last one leaves nothing but the line break before it. -/
theorem lineList_intercalate : lineList (['\n'].intercalate ls) = dropBlank ls := by
  by_cases hne : ls = []
  · subst hne
    rfl
  · rw [lineList, splitOn_intercalate hls hne]

/-- Every line is ended. -/
theorem lineList_endLines : lineList (endLines ls) = ls := by
  have hsplit := splitOn_endLines hls []
  rw [List.append_nil, show splitOn '\n' [] = [[]] from rfl] at hsplit
  simp [lineList, dropBlank, hsplit]

/-- The last line is not ended. -/
theorem lineList_append {r : List Char} (hr : '\n' ∉ r) (hne : r ≠ []) :
    lineList (endLines ls ++ r) = ls ++ [r] := by
  have hsplit := splitOn_endLines hls r
  rw [Paths.splitOn_of_not_mem hr] at hsplit
  simp [lineList, dropBlank, hsplit, hne]

end

end Text

namespace Blocks

variable {α : Type} [DecidableEq α] (first last : α)

/-- What is in no complete block.  A start mark opens a block when an end mark follows. -/
def outside : Bool → List α → List α
  | _, [] => []
  | true, l :: ls => if l = last then outside false ls else outside true ls
  | false, l :: ls =>
      if l = first ∧ last ∈ ls then outside true ls else l :: outside false ls

/-- Everything before the first start mark that no end mark follows. -/
def closed : List α → List α
  | [] => []
  | l :: ls => if l = first ∧ last ∉ ls then [] else l :: closed ls

/-- Everything from there on. -/
def unclosed : List α → List α
  | [] => []
  | l :: ls => if l = first ∧ last ∉ ls then l :: ls else unclosed ls

/-- All marks are those of complete blocks. -/
def Paired (ls : List α) : Prop :=
  first ∉ outside first last false ls ∧ last ∉ outside first last false ls

instance (ls : List α) : Decidable (Paired first last ls) := by
  unfold Paired
  infer_instance

/-- One pass that skips from a start mark to the next end mark, and drops all marks. -/
def strip : Bool → List α → List α
  | _, [] => []
  | skip, l :: ls =>
      if l = first then strip true ls
      else if l = last then strip false ls
      else if skip then strip skip ls
      else l :: strip skip ls

variable {first last} {ls : List α}

theorem closed_append_unclosed (ls : List α) : closed first last ls ++ unclosed first last ls = ls := by
  induction ls with
  | nil => rfl
  | cons l ls ih =>
    unfold closed unclosed
    split_ifs
    · rfl
    · rw [List.cons_append, ih]

theorem outside_of_not_mem (h : last ∉ ls) : outside first last false ls = ls := by
  induction ls with
  | nil => rfl
  | cons l ls ih =>
    rw [List.mem_cons, not_or] at h
    rw [outside, if_neg fun hl => h.2 hl.2, ih h.2]

theorem outside_sublist (inside : Bool) (ls : List α) :
    (outside first last inside ls).Sublist ls := by
  induction ls generalizing inside with
  | nil => cases inside <;> exact List.Sublist.refl _
  | cons l ls ih =>
    cases inside with
    | true =>
      rw [outside]
      split_ifs
      · exact (ih false).cons l
      · exact (ih true).cons l
    | false =>
      rw [outside]
      split_ifs
      · exact (ih true).cons l
      · exact (ih false).cons_cons l

theorem strip_of_not_mem (h : last ∉ ls) : strip first last true ls = [] := by
  induction ls with
  | nil => rfl
  | cons l ls ih =>
    rw [List.mem_cons, not_or] at h
    simp [strip, Ne.symm h.1, ih h.2]

/-- Before the end mark of a block there is no unclosed start mark. -/
theorem closed_cons {l : α} (h : l = first → last ∈ ls) :
    closed first last (l :: ls) = l :: closed first last ls ∧
      unclosed first last (l :: ls) = unclosed first last ls := by
  have hopen : ¬ (l = first ∧ last ∉ ls) := fun hl => hl.2 (h hl.1)
  rw [closed, unclosed, if_neg hopen, if_neg hopen]
  exact ⟨rfl, rfl⟩

/-- A last line that is no end mark stays outside unless the block before it is open. -/
theorem outside_concat {r : α} (hr : r ≠ last) (inside : Bool) (h : inside = true → last ∈ ls) :
    outside first last inside (ls ++ [r]) = outside first last inside ls ++ [r] := by
  induction ls generalizing inside with
  | nil =>
    cases inside with
    | true => cases h rfl
    | false => simp [outside]
  | cons l ls ih =>
    have hmem : last ∈ ls ++ [r] ↔ last ∈ ls := by simp [Ne.symm hr]
    cases inside with
    | true =>
      simp only [List.cons_append, outside]
      split_ifs with hl
      · exact ih false (by simp)
      · exact ih true fun _ => List.mem_of_ne_of_mem (Ne.symm hl) (h rfl)
    | false =>
      simp only [List.cons_append, outside, hmem]
      split_ifs with hl
      · exact ih true fun _ => hl.2
      · rw [ih false (by simp), List.cons_append]

/-- Lines without a mark stay. -/
theorem outside_append {a : List α} (ha : first ∉ a) (b : List α) :
    outside first last false (a ++ b) = a ++ outside first last false b := by
  induction a with
  | nil => rfl
  | cons l a ih =>
    rw [List.mem_cons, not_or] at ha
    rw [List.cons_append, outside, if_neg fun h => ha.1 h.1.symm, ih ha.2, List.cons_append]

/-- A complete block goes. -/
theorem outside_block {body : List α} (hbody : last ∉ body) (b : List α) :
    outside first last false (first :: (body ++ last :: b)) = outside first last false b := by
  have hskip : outside first last true (body ++ last :: b) = outside first last false b := by
    induction body with
    | nil => rw [List.nil_append, outside, if_pos rfl]
    | cons l body ih =>
      rw [List.mem_cons, not_or] at hbody
      rw [List.cons_append, outside, if_neg (Ne.symm hbody.1), ih hbody.2]
  rw [outside, if_pos ⟨rfl, by simp⟩, hskip]

section

variable (hne : first ≠ last)

include hne

theorem last_mem_closed (h : last ∈ ls) : last ∈ closed first last ls := by
  induction ls with
  | nil => cases h
  | cons l ls ih =>
    rcases List.mem_cons.1 h with rfl | h
    · rw [(closed_cons fun hl => absurd hl.symm hne).1]
      exact List.mem_cons_self
    · rw [(closed_cons fun _ => h).1]
      exact List.mem_cons_of_mem _ (ih h)

/-- What is outside splits where the unclosed part starts, and the pass keeps the first part of it
less the end marks. -/
theorem outside_strip (inside : Bool) (h : inside = true → last ∈ ls) :
    outside first last inside ls =
        outside first last inside (closed first last ls) ++ unclosed first last ls ∧
      strip first last inside ls =
        (outside first last inside (closed first last ls)).filter (· ≠ last) ∧
      first ∉ outside first last inside (closed first last ls) := by
  induction ls generalizing inside with
  | nil => cases inside <;> simp [outside, closed, unclosed, strip]
  | cons l ls ih =>
    cases inside with
    | true =>
      by_cases hl : l = last
      · have hfirst : l ≠ first := fun h => hne (h.symm.trans hl)
        obtain ⟨hclosed, hunclosed⟩ := closed_cons
          (fun h => absurd h hfirst : l = first → last ∈ ls)
        rw [hclosed, hunclosed, outside, outside, strip, if_pos hl, if_pos hl, if_pos hl,
          if_neg hfirst]
        exact ih false (by simp)
      · have hmem : last ∈ ls := List.mem_of_ne_of_mem (Ne.symm hl) (h rfl)
        obtain ⟨hclosed, hunclosed⟩ := closed_cons (l := l) fun _ => hmem
        rw [hclosed, hunclosed, outside, outside, strip, if_neg hl, if_neg hl, if_neg hl,
          if_pos rfl, ite_self]
        exact ih true fun _ => hmem
    | false =>
      by_cases hl : l = first
      · by_cases hmem : last ∈ ls
        · obtain ⟨hclosed, hunclosed⟩ := closed_cons (l := l) fun _ => hmem
          rw [hclosed, hunclosed, outside, outside, strip, if_pos ⟨hl, hmem⟩,
            if_pos ⟨hl, last_mem_closed hne hmem⟩, if_pos hl]
          exact ih true fun _ => hmem
        · have hnone : last ∉ l :: ls := by
            rw [List.mem_cons, not_or]
            exact ⟨fun h => hne (hl ▸ h.symm), hmem⟩
          rw [closed, unclosed, if_pos ⟨hl, hmem⟩, if_pos ⟨hl, hmem⟩, outside_of_not_mem hnone,
            strip, if_pos hl, strip_of_not_mem hmem]
          simp [outside]
      · obtain ⟨hclosed, hunclosed⟩ := closed_cons
          (fun h => absurd h hl : l = first → last ∈ ls)
        obtain ⟨hout, hstrip, hfirst⟩ := ih false (by simp)
        rw [hclosed, hunclosed, outside, outside, strip, if_neg fun h => hl h.1,
          if_neg fun h => hl h.1, if_neg hl, hout, List.cons_append, List.filter_cons, hstrip]
        refine ⟨rfl, ?_, by simp [hfirst, Ne.symm hl]⟩
        by_cases hlast : l = last <;> simp [hlast]

theorem outside_eq (ls : List α) : outside first last false ls =
    outside first last false (closed first last ls) ++ unclosed first last ls :=
  (outside_strip hne false (by simp)).1

theorem strip_eq (ls : List α) : strip first last false ls =
    (outside first last false (closed first last ls)).filter (· ≠ last) :=
  (outside_strip hne false (by simp)).2.1

theorem first_not_mem_closed (ls : List α) :
    first ∉ outside first last false (closed first last ls) :=
  (outside_strip hne false (by simp)).2.2

theorem unclosed_eq_nil (h : Paired first last ls) : unclosed first last ls = [] := by
  have hhead : ∀ ls : List α, unclosed first last ls = [] ∨ first ∈ unclosed first last ls := by
    intro ls
    induction ls with
    | nil => exact Or.inl rfl
    | cons l ls ih =>
      unfold unclosed
      split_ifs with hl
      · exact Or.inr (hl.1 ▸ List.mem_cons_self)
      · exact ih
  refine (hhead ls).resolve_right fun hmem => h.1 ?_
  rw [outside_eq hne]
  exact List.mem_append_right _ hmem

/-- Of lines with paired marks the pass keeps those outside of the blocks. -/
theorem strip_of_paired (h : Paired first last ls) :
    strip first last false ls = outside first last false ls := by
  have hout := outside_eq hne ls
  rw [unclosed_eq_nil hne h, List.append_nil] at hout
  rw [strip_eq hne, ← hout, List.filter_eq_self]
  intro l hl
  have hlast : l ≠ last := by
    rintro rfl
    exact h.2 hl
  simp [hlast]

end

end Blocks
