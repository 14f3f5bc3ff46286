import EraseMe.Library.Octets
import Mathlib.Tactic

/-!
# Quoted strings of RFC 3501

A quoted string is plain characters and escaped specials between quotes.  What is escaped reads back
(`quoted_escape`); what is put between quotes as it is reads back only if it is plain
(`readQuoted_le`).
-/

namespace Quoted

/-- A character of a text, without the two specials: 7 bits, no line end. -/
def isPlain (c : Char) : Bool :=
  1 ≤ c.toNat ∧ c.toNat < 128 ∧ c ∉ ['\r', '\n', '"', '\\']

/-- No character to be quoted. -/
def IsPlain (s : List Char) : Prop := ∀ c ∈ s, isPlain c = true

instance (s : List Char) : Decidable (IsPlain s) :=
  inferInstanceAs (Decidable (∀ c ∈ s, isPlain c = true))

/-- The content up to the closing quote, and what follows. -/
def readQuoted : List Char → Option (List Char × List Char)
  | [] => none
  | c :: s =>
      if c = '"' then some ([], s)
      else if c = '\\' then
        match s with
        | d :: s =>
            if d = '"' ∨ d = '\\' then (readQuoted s).map fun r => (d :: r.1, r.2) else none
        | [] => none
      else if isPlain c then (readQuoted s).map fun r => (c :: r.1, r.2)
      else none

/-- A quoted string at the start of a text. -/
def quoted : List Char → Option (List Char × List Char)
  | '"' :: s => readQuoted s
  | _ => none

/-- Quote what must be quoted. -/
def escape (s : List Char) : List Char :=
  s.flatMap fun c => if c = '\\' ∨ c = '"' then ['\\', c] else [c]

variable {s w r : List Char} {c : Char}

theorem readQuoted_cons (c : Char) (s : List Char) :
    readQuoted (c :: s) =
      if c = '"' then some ([], s)
      else if c = '\\' then
        match s with
        | d :: s =>
            if d = '"' ∨ d = '\\' then (readQuoted s).map fun r => (d :: r.1, r.2) else none
        | [] => none
      else if isPlain c then (readQuoted s).map fun r => (c :: r.1, r.2)
      else none := by
  rw [readQuoted.eq_def]

theorem readQuoted_plain (h : isPlain c = true) :
    readQuoted (c :: s) = (readQuoted s).map fun r => (c :: r.1, r.2) := by
  have hspecial := h
  simp only [isPlain, decide_eq_true_eq, List.mem_cons, not_or] at hspecial
  rw [readQuoted_cons, if_neg hspecial.2.2.2.2.1, if_neg hspecial.2.2.2.2.2.1, if_pos h]

theorem readQuoted_special (h : c = '"' ∨ c = '\\') :
    readQuoted ('\\' :: c :: s) = (readQuoted s).map fun r => (c :: r.1, r.2) := by
  rw [readQuoted_cons, if_neg (by decide), if_pos rfl]
  simp only [if_pos h]

/-- Plain characters read as themselves. -/
theorem readQuoted_append (h : IsPlain w) (s : List Char) :
    readQuoted (w ++ s) = (readQuoted s).map fun r => (w ++ r.1, r.2) := by
  induction w with
  | nil => simp
  | cons c w ih =>
    rw [IsPlain, List.forall_mem_cons] at h
    rw [List.cons_append, readQuoted_plain h.1, ih h.2, Option.map_map]
    rfl

/-- What is put between quotes as it is reads as itself if it is plain. -/
theorem readQuoted_of_isPlain (h : IsPlain w) (r : List Char) :
    readQuoted (w ++ '"' :: r) = some (w, r) := by
  rw [readQuoted_append h]
  simp [readQuoted_cons]

/-- What is escaped reads back. -/
theorem readQuoted_escape (h : ∀ c ∈ w, isPlain c = true ∨ c = '"' ∨ c = '\\') (r : List Char) :
    readQuoted (escape w ++ '"' :: r) = some (w, r) := by
  induction w with
  | nil => simp [escape, readQuoted_cons]
  | cons c w ih =>
    rw [List.forall_mem_cons] at h
    have hrest := ih h.2
    rw [escape] at hrest
    rw [escape, List.flatMap_cons, List.append_assoc]
    by_cases hspecial : c = '\\' ∨ c = '"'
    · rw [if_pos hspecial, List.cons_append, List.singleton_append,
        readQuoted_special hspecial.symm, hrest]
      rfl
    · have hplain := h.1.resolve_right fun hc => hspecial hc.symm
      rw [if_neg hspecial, List.singleton_append, readQuoted_plain hplain, hrest]
      rfl

/-- A quoted string takes no less than its content and the quote; if it takes no more, nothing in it
was escaped. -/
theorem readQuoted_le (h : readQuoted s = some (w, r)) :
    w.length + 1 + r.length ≤ s.length ∧ (w.length + 1 + r.length = s.length → IsPlain w) := by
  induction hn : s.length using Nat.strong_induction_on generalizing s w r with
  | _ n ih =>
    cases s with
    | nil => cases h
    | cons c s =>
      rw [readQuoted_cons] at h
      split_ifs at h with hquote hescape hplain
      · cases h
        refine ⟨by simp at hn ⊢; omega, fun _ => by simp [IsPlain]⟩
      -- an escape takes a character more than it gives
      · cases s with
        | nil => cases h
        | cons d s =>
          simp only at h
          split_ifs at h with hspecial
          obtain ⟨⟨w', r'⟩, hread, heq⟩ := Option.map_eq_some_iff.1 h
          cases heq
          have hrest := (ih s.length (by simp at hn; omega) hread rfl).1
          simp only [List.length_cons] at hn ⊢
          exact ⟨by omega, fun hexact => by omega⟩
      · obtain ⟨⟨w', r'⟩, hread, heq⟩ := Option.map_eq_some_iff.1 h
        cases heq
        obtain ⟨hle, hexact⟩ := ih s.length (by simp at hn; omega) hread rfl
        simp only [List.length_cons] at hn ⊢
        refine ⟨by omega, fun hsame => ?_⟩
        rw [IsPlain, List.forall_mem_cons]
        exact ⟨hplain, hexact (by omega)⟩

end Quoted
