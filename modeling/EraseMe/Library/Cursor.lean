import Mathlib.Data.List.Basic
import Mathlib.Data.List.TakeWhile

/-!
# Positions in a list

A position stands for what is left of a list from there on (`At`), so that what a loop over
positions does can be said of what is left.
-/

namespace Cursor

variable {α : Type} {data s t : List α} {pos n : ℕ} {b : α}

/-- From the position on there is `s`. -/
def At (data : List α) (pos : ℕ) (s : List α) : Prop := ∃ a, data = a ++ s ∧ pos = a.length

theorem at_zero (data : List α) : At data 0 data := ⟨[], rfl, rfl⟩

theorem at_length (data : List α) : At data data.length [] := ⟨data, by simp, rfl⟩

theorem at_append (a s : List α) : At (a ++ s) a.length s := ⟨a, rfl, rfl⟩

theorem At.eq_drop (h : At data pos s) : s = data.drop pos := by
  obtain ⟨a, rfl, rfl⟩ := h
  rw [List.drop_left]

theorem At.add_length (h : At data pos s) : pos + s.length = data.length := by
  obtain ⟨a, rfl, rfl⟩ := h
  rw [List.length_append]

theorem At.getElem? (h : At data pos s) : data[pos]? = s.head? := by
  obtain ⟨a, rfl, rfl⟩ := h
  rw [List.getElem?_append_right le_rfl, Nat.sub_self, List.head?_eq_getElem?]

theorem At.append (h : At data pos (s ++ t)) : At data (pos + s.length) t := by
  obtain ⟨a, rfl, rfl⟩ := h
  exact ⟨a ++ s, (List.append_assoc a s t).symm, List.length_append.symm⟩

theorem At.cons (h : At data pos (b :: s)) : At data (pos + 1) s :=
  At.append (s := [b]) h

theorem At.unique (h : At data pos s) (h' : At data n s) : pos = n := by
  have hlength := h.add_length
  have hlength' := h'.add_length
  omega

theorem At.lt (h : At data pos (b :: s)) : pos < data.length := by
  have hlength := h.add_length
  rw [List.length_cons] at hlength
  omega

theorem at_nil_iff : At data pos [] ↔ pos = data.length :=
  ⟨fun h => by simpa using h.add_length, by
    rintro rfl
    exact at_length data⟩

/-- A run of what a loop skips. -/
def skip (p : α → Bool) (data : List α) (pos : ℕ) : ℕ := pos + ((data.drop pos).takeWhile p).length

theorem At.skip (h : At data pos s) (p : α → Bool) :
    At data (skip p data pos) (s.dropWhile p) := by
  rw [Cursor.skip, ← h.eq_drop]
  rw [← List.takeWhile_append_dropWhile (p := p) (l := s)] at h
  exact h.append

end Cursor
