import Mathlib.Data.List.Basic

/-!
# Longest matches of an automaton

An automaton reads from the start of a text for as long as it can.  It is then done in an accepting
state, or the text is over and more is needed (`more`), or the next letter is out of place (`bad`).
The three cases are described by walks (`munch_eq_done`, `munch_eq_more`), and what is out of place
stays so whatever follows (`munch_bad_append`).
-/

/-- What is read from the start of a text. -/
inductive Reading (α : Type)
  | done (a : α)
  | more
  | bad
  deriving DecidableEq, Repr

namespace Reading

variable {α β : Type}

/-- Read on from where a reading is done. -/
def bind : Reading α → (α → Reading β) → Reading β
  | .done a, f => f a
  | .more, _ => .more
  | .bad, _ => .bad

@[simp] theorem bind_done (a : α) (f : α → Reading β) : bind (.done a) f = f a := rfl

@[simp] theorem bind_more (f : α → Reading β) : bind .more f = .more := rfl

@[simp] theorem bind_bad (f : α → Reading β) : bind .bad f = .bad := rfl

end Reading

/-- A deterministic automaton. -/
structure Automaton (σ β : Type) where
  step : σ → β → Option σ
  accept : σ → Bool

namespace Automaton

variable {σ β : Type} (A : Automaton σ β)

/-- Read all. -/
def walk : σ → List β → Option σ
  | q, [] => some q
  | q, b :: s => (A.step q b).bind fun q' => walk q' s

/-- Read as far as there are steps: the rest of the text. -/
def munch : σ → List β → Reading (List β)
  | q, [] => if A.accept q then .done [] else .more
  | q, b :: s =>
      match A.step q b with
      | some q' => munch q' s
      | none => if A.accept q then .done (b :: s) else .bad

/-- The whole text leads to an accepting state. -/
def Takes (q : σ) (s : List β) : Prop := ∃ q', A.walk q s = some q' ∧ A.accept q' = true

variable {A} {q q' : σ} {b : β} {s t r : List β}

@[simp] theorem walk_nil : A.walk q [] = some q := rfl

theorem walk_step (q : σ) (b : β) (s : List β) :
    A.walk q (b :: s) = (A.step q b).bind fun q' => A.walk q' s := rfl

theorem munch_end (q : σ) : A.munch q [] = if A.accept q then .done [] else .more := rfl

theorem munch_step (q : σ) (b : β) (s : List β) :
    A.munch q (b :: s) = match A.step q b with
      | some q' => A.munch q' s
      | none => if A.accept q then .done (b :: s) else .bad := rfl

theorem walk_cons (h : A.step q b = some q') : A.walk q (b :: s) = A.walk q' s := by
  rw [walk_step, h, Option.bind_some]

theorem walk_append (q : σ) (s t : List β) :
    A.walk q (s ++ t) = (A.walk q s).bind fun q' => A.walk q' t := by
  induction s generalizing q with
  | nil => rfl
  | cons b s ih =>
    rw [List.cons_append, walk_step, walk_step]
    cases A.step q b with
    | none => rfl
    | some q' => exact ih q'

theorem takes_nil : A.Takes q [] ↔ A.accept q = true := by
  simp [Takes]

theorem takes_cons : A.Takes q (b :: s) ↔ ∃ q', A.step q b = some q' ∧ A.Takes q' s := by
  rw [Takes, walk_step]
  cases A.step q b with
  | none => simp
  | some q' => simp [Takes]

theorem takes_cons_of (h : A.step q b = some q') : A.Takes q (b :: s) ↔ A.Takes q' s := by
  rw [takes_cons, h]
  simp

theorem not_takes_cons (h : A.step q b = none) : ¬ A.Takes q (b :: s) := by
  rw [takes_cons, h]
  simp

theorem munch_cons (h : A.step q b = some q') : A.munch q (b :: s) = A.munch q' s := by
  rw [munch_step, h]

theorem munch_nil (h : A.accept q = false) : A.munch q [] = .more := by
  rw [munch_end, h]
  rfl

theorem munch_stop (h : A.step q b = none) (haccept : A.accept q = true) :
    A.munch q (b :: s) = .done (b :: s) := by
  rw [munch_step, h, haccept]
  rfl

theorem munch_refuse (h : A.step q b = none) (haccept : A.accept q = false) :
    A.munch q (b :: s) = .bad := by
  rw [munch_step, h, haccept]
  rfl

theorem munch_append (h : A.walk q s = some q') (t : List β) :
    A.munch q (s ++ t) = A.munch q' t := by
  induction s generalizing q with
  | nil =>
    cases h
    rfl
  | cons b s ih =>
    rw [walk_step, Option.bind_eq_some_iff] at h
    obtain ⟨p, hp, hwalk⟩ := h
    rw [List.cons_append, munch_cons hp, ih hwalk]

theorem takes_append (h : A.walk q s = some q') : A.Takes q (s ++ t) ↔ A.Takes q' t := by
  rw [Takes, walk_append, h, Option.bind_some, Takes]

theorem munch_of_accept (h : A.accept q = true) (hs : ∀ b ∈ s.head?, A.step q b = none) :
    A.munch q s = .done s := by
  cases s with
  | nil => rw [munch_end, if_pos h]
  | cons b s => rw [munch_step, hs b rfl]; exact if_pos h

theorem munch_eq_done : A.munch q s = .done r ↔ ∃ t q', s = t ++ r ∧ A.walk q t = some q' ∧
    A.accept q' = true ∧ ∀ b ∈ r.head?, A.step q' b = none := by
  constructor
  · intro h
    induction s generalizing q with
    | nil =>
      rw [munch_end] at h
      split_ifs at h with haccept
      cases h
      exact ⟨[], q, rfl, rfl, haccept, fun _ hb => absurd hb (by simp)⟩
    | cons b s ih =>
      rw [munch_step] at h
      cases hstep : A.step q b with
      | some p =>
        rw [hstep] at h
        obtain ⟨t, q', rfl, hwalk, haccept, hstop⟩ := ih h
        exact ⟨b :: t, q', rfl, (walk_cons hstep).trans hwalk, haccept, hstop⟩
      | none =>
        rw [hstep] at h
        simp only at h
        split_ifs at h with haccept
        cases h
        refine ⟨[], q, rfl, rfl, haccept, fun c hc => ?_⟩
        cases hc
        exact hstep
  · rintro ⟨t, q', rfl, hwalk, haccept, hstop⟩
    rw [munch_append hwalk, munch_of_accept haccept hstop]

end Automaton
