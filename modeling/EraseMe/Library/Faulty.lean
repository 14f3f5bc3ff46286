import Mathlib.Data.List.Basic

/-!
# Programs whose operations may fail

A program acts on a state and ends with a value or an error; what it has done by then stays done.
Every operation asks a table of faults first, by its name and the number of operations so far.  The
world keeps every state that the program passes through, so that a property can be asked of every
moment of a run and not of its end only.

* `Meets I P m Q E`: from a state with `P`, the program `m` passes through states with `I` only and
  ends with `Q` of its value or `E` of its error;
* the rules of `Meets`, one for each way to build a program;
* `Keeps P m`: `m` preserves `P` at every moment.
-/

namespace Faulty

/-- A state, the number of operations so far and the states passed through, the latest first. -/
structure World (σ : Type) where
  state : σ
  clock : ℕ
  moments : List σ

/-- A program with errors `ε` and values `α`. -/
def Prog (σ ε α : Type) : Type := World σ → Except ε α × World σ

variable {σ ε ε' α β ο φ : Type}

namespace Prog

instance : Monad (Prog σ ε) where
  pure a := fun w => (.ok a, w)
  bind m f := fun w =>
    match m w with
    | (.ok a, w') => f a w'
    | (.error e, w') => (.error e, w')

/-- End with an error. -/
def fail (e : ε) : Prog σ ε α := fun w => (.error e, w)

/-- A result without effect. -/
def ofExcept (r : Except ε α) : Prog σ ε α := fun w => (r, w)

/-- The outcome as a value. -/
def attempt (m : Prog σ ε α) : Prog σ ε' (Except ε α) := fun w => (.ok (m w).1, (m w).2)

/-- Change the error. -/
def mapError (f : ε → ε') (m : Prog σ ε α) : Prog σ ε' α :=
  fun w => ((m w).1.mapError f, (m w).2)

/-- Look at the state. -/
def inspect (f : σ → α) : Prog σ ε α := fun w => (.ok (f w.state), w)

/-- A change that cannot fail. -/
def update (f : σ → σ) : Prog σ ε Unit :=
  fun w => (.ok (), ⟨f w.state, w.clock, f w.state :: w.moments⟩)

/-- The operation `o`: `broken` when the table has a fault for it, `effect` otherwise. -/
def perform (faults : ℕ → ο → Option φ) (o : ο) (effect : σ → Except ε α × σ)
    (broken : φ → σ → ε × σ) : Prog σ ε α := fun w =>
  match faults w.clock o with
  | some fault =>
      let (error, s) := broken fault w.state
      (.error error, ⟨s, w.clock + 1, s :: w.moments⟩)
  | none =>
      let (result, s) := effect w.state
      (result, ⟨s, w.clock + 1, s :: w.moments⟩)

end Prog

open Prog

/-- The end of a program. -/
def Ends (Q : α → σ → Prop) (E : ε → σ → Prop) : Except ε α → σ → Prop
  | .ok a, s => Q a s
  | .error e, s => E e s

@[simp] theorem ends_ok {Q : α → σ → Prop} {E : ε → σ → Prop} {a : α} {s : σ} :
    Ends Q E (.ok a) s = Q a s := rfl

@[simp] theorem ends_error {Q : α → σ → Prop} {E : ε → σ → Prop} {e : ε} {s : σ} :
    Ends Q E (.error e) s = E e s := rfl

theorem Ends.mono {Q Q' : α → σ → Prop} {E E' : ε → σ → Prop} {r : Except ε α} {s : σ}
    (h : Ends Q E r s) (hQ : ∀ a, Q a s → Q' a s) (hE : ∀ e, E e s → E' e s) : Ends Q' E' r s := by
  cases r with
  | ok a => exact hQ a h
  | error e => exact hE e h

/-- From a state with `P`, the program passes through states with `I` and ends with `Q` of its value
or `E` of its error. -/
def Meets (I P : σ → Prop) (m : Prog σ ε α) (Q : α → σ → Prop) (E : ε → σ → Prop) : Prop :=
  ∀ w : World σ, P w.state →
    (∃ passed, (m w).2.moments = passed ++ w.moments ∧ ∀ s ∈ passed, I s) ∧
      Ends Q E (m w).1 (m w).2.state

section Rules

variable {I I' P P' : σ → Prop} {m : Prog σ ε α} {Q Q' : α → σ → Prop} {E E' : ε → σ → Prop}

theorem Meets.mono (h : Meets I P m Q E) (hI : ∀ s, I s → I' s) (hP : ∀ s, P' s → P s)
    (hQ : ∀ a s, Q a s → Q' a s) (hE : ∀ e s, E e s → E' e s) : Meets I' P' m Q' E' := by
  intro w hw
  obtain ⟨⟨passed, hpassed, hall⟩, hends⟩ := h w (hP _ hw)
  exact ⟨⟨passed, hpassed, fun s hs => hI s (hall s hs)⟩,
    hends.mono (fun a => hQ a _) fun e => hE e _⟩

theorem Meets.post (h : Meets I P m Q E) (hQ : ∀ a s, Q a s → Q' a s)
    (hE : ∀ e s, E e s → E' e s) : Meets I P m Q' E' :=
  h.mono (fun _ => id) (fun _ => id) hQ hE

theorem Meets.pre (h : Meets I P m Q E) (hP : ∀ s, P' s → P s) : Meets I P' m Q E :=
  h.mono (fun _ => id) hP (fun _ _ => id) fun _ _ => id

/-- A program meets two specifications at once. -/
theorem Meets.and (h : Meets I P m Q E) (h' : Meets I' P' m Q' E') :
    Meets (fun s => I s ∧ I' s) (fun s => P s ∧ P' s) m (fun a s => Q a s ∧ Q' a s)
      (fun e s => E e s ∧ E' e s) := by
  intro w hw
  obtain ⟨⟨passed, hpassed, hall⟩, hends⟩ := h w hw.1
  obtain ⟨⟨passed', hpassed', hall'⟩, hends'⟩ := h' w hw.2
  have hsame : passed = passed' := List.append_cancel_right (hpassed.symm.trans hpassed')
  subst hsame
  refine ⟨⟨passed, hpassed, fun s hs => ⟨hall s hs, hall' s hs⟩⟩, ?_⟩
  cases hr : (m w).1 with
  | ok a =>
    rw [hr] at hends hends'
    exact ⟨hends, hends'⟩
  | error e =>
    rw [hr] at hends hends'
    exact ⟨hends, hends'⟩

/-- The state at the start may be fixed. -/
theorem Meets.of_forall (h : ∀ s, P s → Meets I (fun t => t = s) m Q E) : Meets I P m Q E :=
  fun w hw => h w.state hw w rfl

/-- A witness in the precondition may be fixed. -/
theorem Meets.of_exists {ι : Type} {R : ι → σ → Prop} (h : ∀ i, Meets I (R i) m Q E) :
    Meets I (fun s => ∃ i, R i s) m Q E :=
  fun w ⟨i, hi⟩ => h i w hi

/-- A part of the precondition that is not about the state may be assumed. -/
theorem Meets.of_and {p : Prop} (h : p → Meets I P m Q E) : Meets I (fun s => p ∧ P s) m Q E :=
  fun w hw => h hw.1 w hw.2

theorem Meets.pure {a : α} (h : ∀ s, P s → Q a s) :
    Meets I P (pure a : Prog σ ε α) Q E :=
  fun w hw => ⟨⟨[], rfl, by simp⟩, h w.state hw⟩

theorem Meets.fail {e : ε} (h : ∀ s, P s → E e s) : Meets I P (fail e : Prog σ ε α) Q E :=
  fun w hw => ⟨⟨[], rfl, by simp⟩, h w.state hw⟩

theorem Meets.ofExcept {r : Except ε α} (h : ∀ s, P s → Ends Q E r s) :
    Meets I P (ofExcept r) Q E :=
  fun w hw => ⟨⟨[], rfl, by simp⟩, h w.state hw⟩

theorem Meets.inspect {f : σ → α} (h : ∀ s, P s → Q (f s) s) :
    Meets I P (inspect f : Prog σ ε α) Q E :=
  fun w hw => ⟨⟨[], rfl, by simp⟩, h w.state hw⟩

theorem Meets.bind {R : β → σ → Prop} {f : α → Prog σ ε β} (hm : Meets I P m Q E)
    (hf : ∀ a, Meets I (Q a) (f a) R E) : Meets I P (m >>= f) R E := by
  intro w hw
  obtain ⟨⟨passed, hpassed, hall⟩, hends⟩ := hm w hw
  show (∃ passed, _ ∧ _) ∧ _
  cases hr : m w with
  | mk r w' =>
    rw [hr] at hends hpassed
    cases r with
    | error e =>
      have hrun : (m >>= f) w = (.error e, w') := by
        show (match m w with
          | (.ok a, w') => f a w'
          | (.error e, w') => (.error e, w')) = _
        rw [hr]
      rw [hrun]
      exact ⟨⟨passed, hpassed, hall⟩, hends⟩
    | ok a =>
      have hrun : (m >>= f) w = f a w' := by
        show (match m w with
          | (.ok a, w') => f a w'
          | (.error e, w') => (.error e, w')) = _
        rw [hr]
      rw [hrun]
      obtain ⟨⟨later, hlater, hall'⟩, hends'⟩ := hf a w' hends
      refine ⟨⟨later ++ passed, ?_, fun s hs => ?_⟩, hends'⟩
      · rw [hlater, hpassed, List.append_assoc]
      · rcases List.mem_append.mp hs with h | h
        · exact hall' s h
        · exact hall s h

/-- What a result allows depends on the result only. -/
theorem Meets.bind_ofExcept {r : Except ε α} {R : β → σ → Prop} {f : α → Prog σ ε β}
    (herror : ∀ error, r = .error error → ∀ s, P s → E error s)
    (hok : ∀ a, r = .ok a → Meets I P (f a) R E) : Meets I P (Prog.ofExcept r >>= f) R E := by
  refine Meets.bind (Q := fun a s => r = .ok a ∧ P s) (Meets.ofExcept fun s hs => ?_) fun a =>
    Meets.of_and (hok a)
  cases r with
  | ok a => exact ⟨rfl, hs⟩
  | error error => exact herror error rfl s hs

/-- A condition that is refused. -/
theorem Meets.ite_fail {p : Prop} [Decidable p] {error : ε} (herror : ∀ s, P s → E error s)
    (h : ¬ p → Meets I P m Q E) : Meets I P (if p then Prog.fail error else m) Q E := by
  by_cases hp : p
  · rw [if_pos hp]
    exact Meets.fail herror
  · rw [if_neg hp]
    exact h hp

theorem Meets.attempt {E₀ : ε' → σ → Prop} (h : Meets I P m Q E) :
    Meets I P (attempt m : Prog σ ε' (Except ε α)) (Ends Q E) E₀ :=
  fun w hw => h w hw

theorem Meets.mapError {f : ε → ε'} {E₀ : ε' → σ → Prop} (h : Meets I P m Q E)
    (hE : ∀ e s, E e s → E₀ (f e) s) : Meets I P (mapError f m) Q E₀ := by
  intro w hw
  obtain ⟨hpassed, hends⟩ := h w hw
  refine ⟨hpassed, ?_⟩
  show Ends Q E₀ ((m w).1.mapError f) (m w).2.state
  cases hr : (m w).1 with
  | ok a =>
    rw [hr] at hends
    exact hends
  | error e =>
    rw [hr] at hends
    exact hE e _ hends

theorem Meets.update {f : σ → σ} {Q : Unit → σ → Prop} (hI : ∀ s, P s → I (f s))
    (hQ : ∀ s, P s → Q () (f s)) : Meets I P (update f : Prog σ ε Unit) Q E :=
  fun w hw => ⟨⟨[f w.state], rfl, by simpa using hI w.state hw⟩, hQ w.state hw⟩

theorem Meets.perform {faults : ℕ → ο → Option φ} {o : ο} {effect : σ → Except ε α × σ}
    {broken : φ → σ → ε × σ}
    (hI : ∀ s, P s → I (effect s).2) (hends : ∀ s, P s → Ends Q E (effect s).1 (effect s).2)
    (hbroken : ∀ n fault s, faults n o = some fault → P s →
      I (broken fault s).2 ∧ E (broken fault s).1 (broken fault s).2) :
    Meets I P (perform faults o effect broken) Q E := by
  intro w hw
  unfold Prog.perform
  cases hfault : faults w.clock o with
  | none => exact ⟨⟨[(effect w.state).2], rfl, by simpa using hI _ hw⟩, hends _ hw⟩
  | some fault =>
    obtain ⟨hi, he⟩ := hbroken _ fault _ hfault hw
    exact ⟨⟨[(broken fault w.state).2], rfl, by simpa using hi⟩, he⟩

end Rules

/-! ### What is preserved at every moment -/

/-- `P` holds at every moment, from a state with `P`. -/
def Keeps (P : σ → Prop) (m : Prog σ ε α) : Prop := Meets P P m (fun _ => P) fun _ => P

section Keeps

variable {P : σ → Prop} {m : Prog σ ε α}

theorem Keeps.pure {a : α} : Keeps P (pure a : Prog σ ε α) := Meets.pure fun _ => id

theorem Keeps.fail {e : ε} : Keeps P (fail e : Prog σ ε α) := Meets.fail fun _ => id

theorem Keeps.ofExcept {r : Except ε α} : Keeps P (Prog.ofExcept r : Prog σ ε α) :=
  Meets.ofExcept fun s hs => by
    cases r with
    | ok a => exact hs
    | error e => exact hs

theorem Keeps.inspect {f : σ → α} : Keeps P (inspect f : Prog σ ε α) := Meets.inspect fun _ => id

theorem Keeps.bind {f : α → Prog σ ε β} (hm : Keeps P m) (hf : ∀ a, Keeps P (f a)) :
    Keeps P (m >>= f) :=
  Meets.bind hm hf

/-- An attempt does not fail. -/
theorem Keeps.meets_attempt {E₀ : ε' → σ → Prop} (h : Keeps P m) :
    Meets P P (Prog.attempt m : Prog σ ε' (Except ε α)) (fun _ => P) E₀ := by
  refine (Meets.attempt h).post (fun r s hs => ?_) fun _ _ => id
  cases r with
  | ok a => exact hs
  | error e => exact hs

theorem Keeps.attempt (h : Keeps P m) : Keeps P (attempt m : Prog σ ε' (Except ε α)) :=
  h.meets_attempt

theorem Keeps.mapError {f : ε → ε'} (h : Keeps P m) : Keeps P (mapError f m) :=
  Meets.mapError h fun _ _ => id

theorem Keeps.update {f : σ → σ} (h : ∀ s, P s → P (f s)) : Keeps P (update f : Prog σ ε Unit) :=
  Meets.update h h

theorem Keeps.perform {faults : ℕ → ο → Option φ} {o : ο} {effect : σ → Except ε α × σ}
    {broken : φ → σ → ε × σ} (heffect : ∀ s, P s → P (effect s).2)
    (hbroken : ∀ fault s, P s → P (broken fault s).2) :
    Keeps P (Prog.perform faults o effect broken) :=
  Meets.perform heffect
    (fun s hs => by
      have h := heffect s hs
      cases hr : (effect s).1 with
      | ok a => exact h
      | error e => exact h)
    fun _ fault s _ hs => ⟨hbroken fault s hs, hbroken fault s hs⟩

end Keeps

end Faulty
