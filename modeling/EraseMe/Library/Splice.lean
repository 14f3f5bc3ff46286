import Mathlib.Tactic

/-!
# Replacing spans of a list

An `Edit` replaces a span.  `replaceAll` makes the edits in place, the last one first; `splice`
builds the result from left to right.  They agree on edits that are in order and apart.
-/

namespace Splice

variable {α : Type*}

/-- A span and the text to put there. -/
structure Edit (α : Type*) where
  start : ℕ
  stop : ℕ
  text : List α

/-- Put the text in place of the span and leave everything else. -/
def replaceSpan (e : Edit α) (l : List α) : List α := l.take e.start ++ e.text ++ l.drop e.stop

/-- Make the edits in place, the last one first. -/
def replaceAll (input : List α) (es : List (Edit α)) : List α := es.foldr replaceSpan input

/-- The input from `p` on with the edits made. -/
def splice (input : List α) : ℕ → List (Edit α) → List α
  | p, [] => input.drop p
  | p, e :: es => (input.drop p).take (e.start - p) ++ e.text ++ splice input e.stop es

/-- The spans lie between `p` and `n`, are not empty, and each ends before the next starts. -/
def Apart (n : ℕ) : ℕ → List (Edit α) → Prop
  | p, [] => p ≤ n
  | p, e :: es => p ≤ e.start ∧ e.start < e.stop ∧ Apart n e.stop es

variable {n p q g : ℕ} {input : List α} {es es' : List (Edit α)}

theorem Apart.le (h : Apart n p es) : p ≤ n := by
  induction es generalizing p with
  | nil => exact h
  | cons e es ih =>
    obtain ⟨hp, hlt, hrest⟩ := h
    have := ih hrest
    omega

theorem Apart.mono (h : Apart n p es) (hq : q ≤ p) : Apart n q es := by
  cases es with
  | nil => exact hq.trans h
  | cons e es => exact ⟨hq.trans h.1, h.2⟩

theorem Apart.sublist (h : Apart n p es) (hsub : es'.Sublist es) : Apart n p es' := by
  induction hsub generalizing p with
  | slnil => exact h
  | cons e _ ih => exact (ih h.2.2).mono (h.1.trans h.2.1.le)
  | cons_cons e _ ih => exact ⟨h.1, h.2.1, ih h.2.2⟩

/-- Making the edits in place is building the result from left to right. -/
theorem replaceAll_eq (h : Apart input.length p es) :
    replaceAll input es = input.take p ++ splice input p es := by
  induction es generalizing p with
  | nil => simp [replaceAll, splice]
  | cons e es ih =>
    obtain ⟨hp, hlt, hrest⟩ := h
    have hle := hrest.le
    have htake : input.take e.start = input.take p ++ (input.drop p).take (e.start - p) := by
      rw [← List.take_add, Nat.add_sub_cancel' hp]
    have hlen : (input.take e.stop).length = e.stop := by simpa using hle
    rw [replaceAll, List.foldr_cons, ← replaceAll, ih hrest, replaceSpan,
      List.take_append_of_le_length (by omega), List.take_take, min_eq_left hlt.le,
      List.drop_append_of_le_length (by omega), List.drop_eq_nil_of_le (by omega), htake, splice]
    simp

theorem replaceAll_eq_splice (h : Apart input.length 0 es) :
    replaceAll input es = splice input 0 es := by
  rw [replaceAll_eq h, List.take_zero, List.nil_append]

/-- Edits that add at most `g` each add at most `g` times their number. -/
theorem length_splice_le (h : Apart input.length p es)
    (hg : ∀ e ∈ es, e.text.length ≤ e.stop - e.start + g) :
    (splice input p es).length + p ≤ input.length + g * es.length := by
  induction es generalizing p with
  | nil =>
    have : p ≤ input.length := h
    simp [splice]
    omega
  | cons e es ih =>
    obtain ⟨hp, hlt, hrest⟩ := h
    have hle := hrest.le
    have hlen := ih hrest fun e he => hg e (List.mem_cons_of_mem _ he)
    have htext := hg e List.mem_cons_self
    simp only [splice, List.length_append, List.length_take, List.length_drop, List.length_cons,
      Nat.mul_add, Nat.mul_one]
    omega

/-- Where the last span ends. -/
def lastStop : ℕ → List (Edit α) → ℕ
  | p, [] => p
  | _, e :: es => lastStop e.stop es

theorem lastStop_concat (p : ℕ) (es : List (Edit α)) (e : Edit α) :
    lastStop p (es ++ [e]) = e.stop := by
  induction es generalizing p with
  | nil => rfl
  | cons d es ih => exact ih d.stop

theorem Apart.concat (h : Apart n p es) {e : Edit α} (hstart : lastStop p es ≤ e.start)
    (hlt : e.start < e.stop) (hle : e.stop ≤ n) : Apart n p (es ++ [e]) := by
  induction es generalizing p with
  | nil => exact ⟨hstart, hlt, hle⟩
  | cons d es ih => exact ⟨h.1, h.2.1, ih h.2.2 hstart⟩

end Splice
