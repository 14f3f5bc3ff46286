import Mathlib.Tactic

/-!
# Mail data of RFC 5321

Data is a run of lines, each ended by `CRLF`, and ends with the line of a single dot.  A leading dot
of any other line is there for the transport and is dropped.  `readData` is the receiving side:
what it read, and what is left.
-/

namespace DotLines

/-- The first line and what follows its end. -/
def readLine : List UInt8 → Option (List UInt8 × List UInt8)
  | [] => none
  | b :: s =>
      if b = 13 ∧ s.head? = some 10 then some ([], s.tail)
      else (readLine s).map fun r => (b :: r.1, r.2)

/-- A line without the dot of the transport. -/
def undot (line : List UInt8) : List UInt8 := if line.head? = some 46 then line.tail else line

/-- A line with the dot of the transport. -/
def dot (line : List UInt8) : List UInt8 := if line.head? = some 46 then 46 :: line else line

variable {s t line rest body content : List UInt8}

theorem readLine_cons (b : UInt8) (s : List UInt8) :
    readLine (b :: s) = if b = 13 ∧ s.head? = some 10 then some ([], s.tail)
      else (readLine s).map fun r => (b :: r.1, r.2) := by
  rw [readLine]

theorem eq_of_readLine (h : readLine s = some (line, rest)) : s = line ++ 13 :: 10 :: rest := by
  induction s generalizing line with
  | nil => cases h
  | cons b s ih =>
    rw [readLine_cons] at h
    split_ifs at h with hend
    · obtain ⟨rfl, hhead⟩ := hend
      obtain ⟨s', rfl⟩ := List.head?_eq_some_iff.1 hhead
      cases h
      rfl
    · obtain ⟨r, hr, heq⟩ := Option.map_eq_some_iff.1 h
      cases heq
      rw [ih hr, List.cons_append]

theorem length_of_readLine (h : readLine s = some (line, rest)) : rest.length < s.length := by
  rw [eq_of_readLine h, List.length_append, List.length_cons, List.length_cons]
  omega

/-- A line without a line feed is read whole. -/
theorem readLine_append_crlf (h : 10 ∉ body) (rest : List UInt8) :
    readLine (body ++ 13 :: 10 :: rest) = some (body, rest) := by
  induction body with
  | nil => simp [readLine]
  | cons b body ih =>
    rw [List.mem_cons, not_or] at h
    have hend : ¬ (b = 13 ∧ (body ++ 13 :: 10 :: rest).head? = some 10) := by
      rintro ⟨-, hhead⟩
      cases body with
      | nil => simp at hhead
      | cons c body =>
        rw [List.mem_cons, not_or] at h
        exact h.2.1 (Option.some.inj hhead).symm
    rw [List.cons_append, readLine_cons, if_neg hend, ih h.2]
    rfl

theorem readLine_append (h : readLine s = some (line, rest)) (t : List UInt8) :
    readLine (s ++ t) = some (line, rest ++ t) := by
  induction s generalizing line with
  | nil => cases h
  | cons b s ih =>
    rw [readLine_cons] at h
    rw [List.cons_append, readLine_cons]
    split_ifs at h with hend
    · obtain ⟨rfl, hhead⟩ := hend
      obtain ⟨s', rfl⟩ := List.head?_eq_some_iff.1 hhead
      cases h
      rfl
    · obtain ⟨r, hr, heq⟩ := Option.map_eq_some_iff.1 h
      cases heq
      have hend' : ¬ (b = 13 ∧ (s ++ t).head? = some 10) := by
        cases s with
        | nil => cases hr
        | cons c s => simpa using hend
      rw [if_neg hend', ih hr]
      rfl

/-- The text of the data and what follows it. -/
def readData (s : List UInt8) : Option (List UInt8 × List UInt8) :=
  match h : readLine s with
  | none => none
  | some (line, rest) =>
      if line = [46] then some ([], rest)
      else (readData rest).map fun r => (undot line ++ 13 :: 10 :: r.1, r.2)
termination_by s.length
decreasing_by exact length_of_readLine h

theorem readData_of_readLine (h : readLine s = some (line, rest)) :
    readData s = if line = [46] then some ([], rest)
      else (readData rest).map fun r => (undot line ++ 13 :: 10 :: r.1, r.2) := by
  rw [readData.eq_def]
  split
  · rename_i hnone
    rw [h] at hnone
    cases hnone
  · rename_i hsome
    rw [h] at hsome
    cases hsome
    rfl

theorem readData_of_none (h : readLine s = none) : readData s = none := by
  rw [readData.eq_def]
  split
  · rfl
  · rename_i hsome
    rw [h] at hsome
    cases hsome

/-- What comes after the data is left as it is. -/
theorem readData_append (h : readData s = some (content, rest)) (t : List UInt8) :
    readData (s ++ t) = some (content, rest ++ t) := by
  induction hn : s.length using Nat.strong_induction_on generalizing s content with
  | _ n ih =>
    subst hn
    cases hline : readLine s with
    | none =>
      rw [readData_of_none hline] at h
      cases h
    | some r =>
      obtain ⟨line, after⟩ := r
      rw [readData_of_readLine hline] at h
      rw [readData_of_readLine (readLine_append hline t)]
      split_ifs at h ⊢ with hend
      · cases h
        rfl
      · obtain ⟨r, hr, heq⟩ := Option.map_eq_some_iff.1 h
        cases heq
        rw [ih _ (length_of_readLine hline) hr rfl]
        rfl

/-- Data that ends with the last byte does not end before it. -/
theorem readData_of_prefix (h : readData s = some (content, [])) {part : List UInt8}
    (hstart : part <+: s) (hne : part ≠ s) : readData part = none := by
  obtain ⟨t, rfl⟩ := hstart
  cases hpart : readData part with
  | none => rfl
  | some r =>
    obtain ⟨content', rest⟩ := r
    rw [readData_append hpart t] at h
    have hnil : rest ++ t = [] := congrArg Prod.snd (Option.some.inj h)
    rw [(List.append_eq_nil_iff.1 hnil).2, List.append_nil] at hne
    exact absurd rfl hne

theorem undot_dot (line : List UInt8) : undot (dot line) = line := by
  unfold dot undot
  by_cases h : line.head? = some 46
  · rw [if_pos h, List.head?_cons, if_pos rfl, List.tail_cons]
  · rw [if_neg h, if_neg h]

theorem dot_ne (line : List UInt8) : dot line ≠ [46] := by
  unfold dot
  split_ifs with h
  · obtain ⟨s, rfl⟩ := List.head?_eq_some_iff.1 h
    simp
  · rintro rfl
    exact h rfl

/-- A line is dotted by its first byte. -/
theorem dot_append (h : line ≠ []) (t : List UInt8) : dot (line ++ t) = dot line ++ t := by
  cases line with
  | nil => exact absurd rfl h
  | cons b line =>
    unfold dot
    by_cases hb : b = 46
    · simp [hb]
    · simp [hb]

theorem mem_dot (h : 10 ∉ body) : 10 ∉ dot body := by
  unfold dot
  split_ifs
  · rw [List.mem_cons, not_or]
    exact ⟨by decide, h⟩
  · exact h

/-- A dotted line is read as the line. -/
theorem readData_dot (h : 10 ∉ body) (s : List UInt8) :
    readData (dot body ++ 13 :: 10 :: s) =
      (readData s).map fun r => (body ++ 13 :: 10 :: r.1, r.2) := by
  rw [readData_of_readLine (readLine_append_crlf (mem_dot h) s), if_neg (dot_ne body), undot_dot]

/-- The line of a single dot ends the data. -/
theorem readData_stop (rest : List UInt8) : readData (46 :: 13 :: 10 :: rest) = some ([], rest) := by
  have hdot : (10 : UInt8) ∉ [46] := by decide
  have hline : readLine (46 :: 13 :: 10 :: rest) = some ([46], rest) :=
    readLine_append_crlf hdot rest
  rw [readData_of_readLine hline, if_pos rfl]

end DotLines
