import Mathlib.Logic.Relation

/-!
# Runs of a step relation
-/

namespace Run

variable {σ : Type*} {Step : σ → σ → Prop}

/-- `t` is reached from `s` in any number of steps. -/
abbrev Reaches (Step : σ → σ → Prop) (s t : σ) : Prop := Relation.ReflTransGen Step s t

/-- What every step preserves holds in every state reached. -/
theorem invariant {Inv : σ → Prop} (hstep : ∀ s t, Step s t → Inv s → Inv t) {s t : σ}
    (hrun : Reaches Step s t) (hs : Inv s) : Inv t := by
  induction hrun with
  | refl => exact hs
  | tail _ hst ih => exact hstep _ _ hst ih

end Run
