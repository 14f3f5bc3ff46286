import EraseMe.Library.Run
import Mathlib.Logic.Function.Basic
import Mathlib.Tactic

/-!
# Clients of a shared value

Each client calls one operation at a time: it reads the value, computes a result and maybe a new
value from what it has read, and replaces the value in one step.  A call may fail at any moment.
Nothing keeps another client from replacing the value in between.

A replacement is fresh if the value is still the one that was read.  Where all replacements are
fresh, the value and the results are as if every call had been made at once: what such calls keep
holds in every state reached (`invariant_of_fresh`).
-/

namespace SharedCell

variable {ι κ σ ρ : Type}

/-- How far the call of a client has come. -/
inductive Phase (κ σ ρ : Type)
  | idle
  | called (op : κ)
  | seen (op : κ) (value : σ)
  | ready (op : κ) (value : σ) (result : ρ) (next : σ)

/-- One step of a client. -/
inductive Action (κ : Type)
  | call (op : κ)
  | read
  | compute
  | replace
  | fail

/-- The value, the calls under way, and the calls that returned, the latest last. -/
structure State (ι κ σ ρ : Type) where
  value : σ
  phase : ι → Phase κ σ ρ
  returned : List (ι × κ × ρ)

/-- Nobody has begun. -/
def State.start (value : σ) : State ι κ σ ρ := ⟨value, fun _ => .idle, []⟩

variable [DecidableEq ι] (apply : ι → κ → σ → ρ × Option σ)

/-- The state in which a client has come to a phase. -/
def State.enter (s : State ι κ σ ρ) (i : ι) (phase : Phase κ σ ρ) : State ι κ σ ρ :=
  { s with phase := Function.update s.phase i phase }

/-- The state in which the call of a client has returned. -/
def State.finish (s : State ι κ σ ρ) (i : ι) (op : κ) (result : ρ) (value : σ) : State ι κ σ ρ where
  value := value
  phase := Function.update s.phase i .idle
  returned := s.returned ++ [(i, op, result)]

/-- A step of a client, if it can be made.  A call that computes no new value returns at once. -/
def step (s : State ι κ σ ρ) (i : ι) (action : Action κ) : Option (State ι κ σ ρ) :=
  match s.phase i, action with
  | .idle, .call op => some (s.enter i (.called op))
  | .called op, .read => some (s.enter i (.seen op s.value))
  | .seen op value, .compute =>
      match apply i op value with
      | (result, none) => some (s.finish i op result s.value)
      | (result, some next) => some (s.enter i (.ready op value result next))
  | .ready op _ result next, .replace => some (s.finish i op result next)
  | .idle, .fail => none
  | _, .fail => some (s.enter i .idle)
  | _, _ => none

/-- A step that is no replacement of a value other than the one read. -/
def FreshStep (s t : State ι κ σ ρ) : Prop :=
  ∃ i action, step apply s i action = some t ∧ (∀ op value result next,
    s.phase i = .ready op value result next → action = .replace → s.value = value)

/-- The state after the steps of a schedule, if they can be made. -/
def run (s : State ι κ σ ρ) : List (ι × Action κ) → Option (State ι κ σ ρ)
  | [] => some s
  | (i, action) :: schedule => (step apply s i action).bind fun t => run t schedule

/-- Nothing is ready, or the value is still the one it was computed from. -/
def Phase.current [DecidableEq σ] (current : σ) : Phase κ σ ρ → Bool
  | .ready _ value _ _ => current = value
  | _ => true

/-- The same for steps whose replacements are fresh. -/
def freshRun [DecidableEq σ] (s : State ι κ σ ρ) :
    List (ι × Action κ) → Option (State ι κ σ ρ)
  | [] => some s
  | (i, action) :: schedule =>
      if (s.phase i).current s.value then
        (step apply s i action).bind fun t => freshRun t schedule
      else none

theorem reaches_of_freshRun [DecidableEq σ] {schedule : List (ι × Action κ)}
    {s t : State ι κ σ ρ} (h : freshRun apply s schedule = some t) :
    Run.Reaches (FreshStep apply) s t := by
  induction schedule generalizing s with
  | nil =>
    cases h
    exact Relation.ReflTransGen.refl
  | cons move schedule ih =>
    obtain ⟨i, action⟩ := move
    rw [freshRun] at h
    split_ifs at h with hfresh
    obtain ⟨r, hr, hrest⟩ := Option.bind_eq_some_iff.1 h
    refine (ih hrest).head ⟨i, action, hr, fun op value result next hphase _ => ?_⟩
    rw [hphase] at hfresh
    exact of_decide_eq_true hfresh

/-- What a step does. -/
theorem step_cases {s t : State ι κ σ ρ} {i : ι} {action : Action κ}
    (h : step apply s i action = some t) :
    (∃ phase, t = s.enter i phase ∧ ∀ op value result next,
      phase = .ready op value result next → apply i op value = (result, some next)) ∨
    (∃ op value result, apply i op value = (result, none) ∧ t = s.finish i op result s.value) ∨
    (∃ op value result next, s.phase i = .ready op value result next ∧ action = .replace ∧
      t = s.finish i op result next) := by
  unfold step at h
  cases hphase : s.phase i with
  | idle =>
    rw [hphase] at h
    cases action with
    | call op =>
      cases h
      exact Or.inl ⟨_, rfl, fun _ _ _ _ heq => by cases heq⟩
    | _ => cases h
  | called op =>
    rw [hphase] at h
    cases action with
    | read =>
      cases h
      exact Or.inl ⟨_, rfl, fun _ _ _ _ heq => by cases heq⟩
    | fail =>
      cases h
      exact Or.inl ⟨_, rfl, fun _ _ _ _ heq => by cases heq⟩
    | _ => cases h
  | seen op value =>
    rw [hphase] at h
    cases action with
    | compute =>
      simp only at h
      cases happly : apply i op value with
      | mk result next =>
        rw [happly] at h
        cases next with
        | none =>
          cases h
          exact Or.inr (Or.inl ⟨op, value, result, happly, rfl⟩)
        | some next =>
          cases h
          refine Or.inl ⟨_, rfl, fun _ _ _ _ heq => ?_⟩
          cases heq
          exact happly
    | fail =>
      cases h
      exact Or.inl ⟨_, rfl, fun _ _ _ _ heq => by cases heq⟩
    | _ => cases h
  | ready op value result next =>
    rw [hphase] at h
    cases action with
    | replace =>
      cases h
      exact Or.inr (Or.inr ⟨op, value, result, next, rfl, rfl, rfl⟩)
    | fail =>
      cases h
      exact Or.inl ⟨_, rfl, fun _ _ _ _ heq => by cases heq⟩
    | _ => cases h

/-- What is ready was computed from what was read. -/
def Computed (s : State ι κ σ ρ) : Prop :=
  ∀ i op value result next, s.phase i = .ready op value result next →
    apply i op value = (result, some next)

theorem computed_update {s : State ι κ σ ρ} (h : Computed apply s) {i : ι}
    {phase : Phase κ σ ρ} (hphase : ∀ op value result next,
      phase = .ready op value result next → apply i op value = (result, some next)) (j : ι)
    (op : κ) (value : σ) (result : ρ) (next : σ)
    (hj : Function.update s.phase i phase j = .ready op value result next) :
    apply j op value = (result, some next) := by
  by_cases hji : j = i
  · subst hji
    rw [Function.update_self] at hj
    exact hphase _ _ _ _ hj
  · rw [Function.update_of_ne hji] at hj
    exact h j op value result next hj

theorem computed_step {s t : State ι κ σ ρ} {i : ι} {action : Action κ}
    (hstep : step apply s i action = some t) (h : Computed apply s) : Computed apply t := by
  have hidle : ∀ (op : κ) (value : σ) (result : ρ) (next : σ),
      (Phase.idle : Phase κ σ ρ) = .ready op value result next →
        apply i op value = (result, some next) := fun _ _ _ _ heq => by cases heq
  rcases step_cases apply hstep with ⟨phase, rfl, hphase⟩ | ⟨op, value, result, -, rfl⟩ |
    ⟨op, value, result, next, -, -, rfl⟩
  · exact computed_update apply h hphase
  · exact computed_update apply h hidle
  · exact computed_update apply h hidle

/-- What calls made at once keep, of the value and the calls that returned. -/
structure Keeps (I : σ → List (ι × κ × ρ) → Prop) : Prop where
  answer : ∀ i op value result current returned, apply i op value = (result, none) →
    I current returned → I current (returned ++ [(i, op, result)])
  write : ∀ i op value result next returned, apply i op value = (result, some next) →
    I value returned → I next (returned ++ [(i, op, result)])

/-- The rule for runs in which every replacement is fresh. -/
theorem invariant_of_fresh {I : σ → List (ι × κ × ρ) → Prop} (hI : Keeps apply I) {value : σ}
    (hstart : I value []) {t : State ι κ σ ρ}
    (hrun : Run.Reaches (FreshStep apply) (.start value) t) : I t.value t.returned := by
  have hrule : ∀ s t, FreshStep apply s t → Computed apply s ∧ I s.value s.returned →
      Computed apply t ∧ I t.value t.returned := by
    rintro s t ⟨i, action, hstep, hfresh⟩ ⟨hcomputed, hs⟩
    refine ⟨computed_step apply hstep hcomputed, ?_⟩
    rcases step_cases apply hstep with ⟨phase, rfl, -⟩ | ⟨op, seen, result, happly, rfl⟩ |
      ⟨op, seen, result, next, hphase, hreplace, rfl⟩
    · exact hs
    · exact hI.answer _ _ _ _ _ _ happly hs
    · have hvalue := hfresh op seen result next hphase hreplace
      have happly := hcomputed i op seen result next hphase
      exact hI.write _ _ _ _ _ _ happly (hvalue ▸ hs)
  have hcomputed : Computed apply (.start value) := fun _ _ _ _ _ h => by cases h
  exact (Run.invariant hrule hrun ⟨hcomputed, hstart⟩).2

end SharedCell
